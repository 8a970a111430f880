import Septem.Core.TaskThreadOrder
import Septem.Core.TaskThreadStop

/-!
# TaskThreadWorkers — several workers on one queue

`CreateThread` may be called again while a worker is running; then several workers pop from one
queue.  What a step does to the tasks is said once (`Pops` for a worker, `Flow` for any event and
any run), and two results are read off it:

* `tasks_once`: an accepted task is never lost and never executed twice, and each worker executes
  its tasks in the order of acceptance;
* `queue_served`: as long as nobody stops the thread, one worker that takes steps is enough for
  every task to leave the queue, whatever all other threads do.
-/

namespace Septem

open Cxx TaskHistory
open scoped List

/-! ## A step of a worker -/

/-- What a step of `worker` does with the tasks: those of `entries` leave the queue.  What was in
the worker's hand has been passed to `OnDoTask`, and what is there now has been popped just now. -/
structure TTaskThread.Pops (history : TaskHistory) (this : TTaskThread) (left : SharedPtr)
    (worker : Worker) (entries : List (SharedPtr × TaskFate)) : Prop where
  accepted : (history.record this worker).accepted = history.accepted
  removed : (history.record this worker).removed = history.removed ++ entries
  queue : this.taskQueue = entries.map Prod.fst ++ (this.threadRun left worker).1.taskQueue
  fits : ∀ entry ∈ entries, entry.2.Fits entry.1 ∧ entry.2 ≠ .cleared
  calls : (history.record this worker).calls = history.calls ++ worker.inHand
  inHand : (this.threadRun left worker).2.inHand = withFate .executed entries

theorem TTaskThread.threadRun_pops (history : TaskHistory) (this : TTaskThread) (left : SharedPtr)
    (worker : Worker) : ∃ entries, this.Pops history left worker entries := by
  have hnone {P : SharedPtr × TaskFate → Prop} : ∀ entry ∈ [], P entry :=
    fun _ hentry => absurd hentry List.not_mem_nil
  have hexecuted : TaskFate.executed ≠ .cleared := by decide
  have hskipped : TaskFate.skipped ≠ .cleared := by decide
  rcases worker with ⟨pc, pCacheTask⟩
  cases pc with
  | whileTest =>
      refine ⟨[], ?_⟩
      by_cases hrunning : this.bRunning
      · constructor <;> simp [threadRun, TaskHistory.record, hrunning, Worker.inHand, withFate]
      · constructor <;> simp [threadRun, TaskHistory.record, hrunning, Worker.inHand, withFate]
  | popTask =>
      rcases this with ⟨mThread, bRunning, iThreadState, taskQueue⟩
      rcases taskQueue with _ | ⟨_ | object, rest⟩
      · exact ⟨[], rfl, (List.append_nil _).symm, rfl, hnone, (List.append_nil _).symm, rfl⟩
      · refine ⟨[(none, .skipped)], rfl, rfl, rfl, ?_, (List.append_nil _).symm, rfl⟩
        intro entry hentry
        rw [List.mem_singleton.1 hentry]
        exact ⟨rfl, hskipped⟩
      · refine ⟨[(some object, .executed)], rfl, rfl, rfl, ?_, (List.append_nil _).symm, rfl⟩
        intro entry hentry
        rw [List.mem_singleton.1 hentry]
        exact ⟨Option.some_ne_none object, hexecuted⟩
  | onDoTask => exact ⟨[], rfl, (List.append_nil _).symm, rfl, hnone, rfl, rfl⟩
  | _ => exact ⟨[], rfl, (List.append_nil _).symm, rfl, hnone, (List.append_nil _).symm, rfl⟩

namespace TaskSystem

/-! ## A step of the system -/

/-- From `s` to `s'` the tasks of `entries` have left the queue, at its front; those among them that
are to be executed have come into a worker's hand, and from there to `OnDoTask`. -/
structure Flow (s s' : TaskSystem) (entries : List (SharedPtr × TaskFate)) : Prop where
  removed : s'.history.removed = s.history.removed ++ entries
  queue : ∃ pushed, s'.history.accepted = s.history.accepted ++ pushed ∧
    s.thread.taskQueue ++ pushed = entries.map Prod.fst ++ s'.thread.taskQueue
  fits : ∀ entry ∈ entries, entry.2.Fits entry.1
  calls : (s'.history.calls ++ s'.inHand) ~
    s.history.calls ++ s.inHand ++ withFate .executed entries

section Flow

variable {s s' : TaskSystem}

theorem Flow.of_eq (hhistory : s'.history = s.history)
    (hqueue : s'.thread.taskQueue = s.thread.taskQueue) (hinHand : s'.inHand = s.inHand) :
    Flow s s' [] where
  removed := by rw [hhistory, List.append_nil]
  queue := ⟨[], by rw [hhistory, List.append_nil], by rw [hqueue, List.append_nil]; rfl⟩
  fits := nofun
  calls := by
    rw [hhistory, hinHand]
    exact .of_eq (List.append_nil _).symm

theorem Flow.trans {s'' : TaskSystem} {entries entries' : List (SharedPtr × TaskFate)}
    (h : Flow s s' entries) (h' : Flow s' s'' entries') : Flow s s'' (entries ++ entries') where
  removed := by rw [h'.removed, h.removed, List.append_assoc]
  queue := by
    rcases h.queue with ⟨pushed, haccepted, hqueue⟩
    rcases h'.queue with ⟨pushed', haccepted', hqueue'⟩
    refine ⟨pushed ++ pushed', by rw [haccepted', haccepted, List.append_assoc], ?_⟩
    calc
      s.thread.taskQueue ++ (pushed ++ pushed')
          = entries.map Prod.fst ++ (s'.thread.taskQueue ++ pushed') := by
            rw [← List.append_assoc, hqueue, List.append_assoc]
      _ = (entries ++ entries').map Prod.fst ++ s''.thread.taskQueue := by
            rw [hqueue', List.map_append, List.append_assoc]
  fits := by
    intro entry hentry
    rcases List.mem_append.1 hentry with hfirst | hlast
    · exact h.fits entry hfirst
    · exact h'.fits entry hlast
  calls := by
    have hfate : withFate .executed (entries ++ entries') =
        withFate .executed entries ++ withFate .executed entries' := by
      simp [withFate]
    rw [hfate, ← List.append_assoc]
    exact h'.calls.trans (h.calls.append_right _)

theorem startCall_flow (s : TaskSystem) (c : ThreadId) (method : TaskCall) :
    ∃ entries, Flow s (s.startCall c method) entries ∧
      ∀ entry ∈ entries, entry.2 = .cleared → method = .clearTaskQueue := by
  cases method with
  | createThread created =>
      cases created with
      | false => exact ⟨[], .of_eq rfl rfl rfl, nofun⟩
      | true =>
          -- The new worker has nothing in its hand.
          have hnew : (s.startCall c (.createThread true)).inHand = s.inHand := by
            simp [inHand, TaskSystem.startCall, Worker.inHand]
          exact ⟨[], .of_eq rfl rfl hnew, nofun⟩
  | stopThread => exact ⟨[], .of_eq rfl rfl rfl, nofun⟩
  | joinThread => exact ⟨[], .of_eq rfl rfl rfl, nofun⟩
  | delayStopThread => exact ⟨[], .of_eq rfl rfl rfl, nofun⟩
  | pushTask inTask =>
      rcases startCall_pushTask s c inTask with hcall | hcall
      · rw [hcall]
        exact ⟨[], .of_eq rfl rfl rfl, nofun⟩
      · rw [hcall]
        exact ⟨[], .of_eq rfl rfl rfl, nofun⟩
  | clearTaskQueue =>
      -- The whole queue leaves, and nothing of it is executed.
      have hnone : withFate .executed (s.thread.taskQueue.map (·, TaskFate.cleared)) = [] := by
        simp [withFate]
      refine ⟨s.thread.taskQueue.map (·, .cleared),
        { removed := rfl
          queue := ⟨[], (List.append_nil _).symm, by
            simp [Function.comp_def, startCall, TTaskThread.clearTaskQueue]⟩
          fits := by
            intro entry hentry
            rcases List.mem_map.1 hentry with ⟨task, -, rfl⟩
            exact trivial
          calls := by
            rw [hnone, List.append_nil]
            exact .refl _ }, fun _ _ _ => rfl⟩

theorem clientStep_flow (s : TaskSystem) (c : ThreadId) : Flow s (s.clientStep c) [] := by
  unfold clientStep
  split
  · exact .of_eq rfl rfl rfl
  · exact ⟨(List.append_nil _).symm, ⟨_, rfl, rfl⟩, nofun, .of_eq (List.append_nil _).symm⟩
  · split <;> exact .of_eq rfl rfl rfl
  · split <;> exact .of_eq rfl rfl rfl

theorem workerStep_flow {w : WorkerId} {worker : Worker} {left : SharedPtr}
    {entries : List (SharedPtr × TaskFate)} (hget : s.workers[w]? = some worker)
    (hpops : s.thread.Pops s.history left worker entries) :
    Flow s (s.workerStep w left) entries := by
  rw [workerStep_eq hget]
  refine
    { removed := hpops.removed
      queue := ⟨[], by rw [hpops.accepted, List.append_nil], by rw [List.append_nil, hpops.queue]⟩
      fits := fun entry hentry => (hpops.fits entry hentry).1
      calls := ?_ }
  -- Which worker takes the step does not matter up to permutation.
  have hhands := flatMap_set_perm Worker.inHand hget (s.thread.threadRun left worker).2
  rw [hpops.inHand] at hhands
  let inHand' := (s.workers.set w (s.thread.threadRun left worker).2).flatMap Worker.inHand
  calc
    (s.history.record s.thread worker).calls ++ inHand'
      = s.history.calls ++ (worker.inHand ++ inHand') := by rw [hpops.calls, List.append_assoc]
    _ ~ s.history.calls ++ (inHand' ++ worker.inHand) := List.perm_append_comm.append_left _
    _ ~ s.history.calls ++ (s.inHand ++ withFate .executed entries) := hhands.append_left _
    _ = s.history.calls ++ s.inHand ++ withFate .executed entries := (List.append_assoc ..).symm

/-- Tasks are cleared by `ClearTaskQueue` only. -/
theorem next_flow (s : TaskSystem) (event : TaskEvent) :
    ∃ entries, Flow s (s.next event) entries ∧
      ∀ entry ∈ entries, entry.2 = .cleared → ∃ c, event = .call c .clearTaskQueue := by
  cases event with
  | call c method =>
      by_cases hidle : s.clients c = .idle
      · rcases startCall_flow s c method with ⟨entries, hflow, hcleared⟩
        rw [next_call_idle hidle]
        exact ⟨entries, hflow, fun entry hentry hfate => ⟨c, by rw [hcleared entry hentry hfate]⟩⟩
      · rw [next_call_busy hidle]
        exact ⟨[], .of_eq rfl rfl rfl, nofun⟩
  | client c => exact ⟨[], clientStep_flow s c, nofun⟩
  | worker w left =>
      cases hget : s.workers[w]? with
      | none =>
          refine ⟨[], ?_, nofun⟩
          rw [TaskSystem.next, workerStep_none hget]
          exact .of_eq rfl rfl rfl
      | some worker =>
          rcases s.thread.threadRun_pops s.history left worker with ⟨entries, hpops⟩
          refine ⟨entries, workerStep_flow hget hpops, ?_⟩
          intro entry hentry hfate
          exact absurd hfate (hpops.fits entry hentry).2

theorem run_flow {events : List TaskEvent} (hrun : run step s events = .ok s') :
    ∃ entries, Flow s s' entries ∧
      ∀ entry ∈ entries, entry.2 = .cleared → ∃ c, .call c .clearTaskQueue ∈ events := by
  induction events generalizing s with
  | nil =>
      cases hrun
      exact ⟨[], .of_eq rfl rfl rfl, nofun⟩
  | cons event events ih =>
      rw [run_cons] at hrun
      rcases next_flow s event with ⟨first, hfirst, hcleared⟩
      rcases ih hrun with ⟨rest, hrest, hcleared'⟩
      refine ⟨first ++ rest, hfirst.trans hrest, ?_⟩
      intro entry hentry hfate
      rcases List.mem_append.1 hentry with hnow | hlater
      · rcases hcleared entry hnow hfate with ⟨c, rfl⟩
        exact ⟨c, List.mem_cons_self⟩
      · rcases hcleared' entry hlater hfate with ⟨c, hc⟩
        exact ⟨c, List.mem_cons_of_mem event hc⟩

end Flow

/-! ## One worker among others -/

/-- The task in the hand of worker `w`. -/
def handOf (s : TaskSystem) (w : WorkerId) : List SharedPtr :=
  (s.workers[w]?.map Worker.inHand).getD []

/-- What worker `w` passes to `OnDoTask` during the run, in order. -/
def callsOf (w : WorkerId) : TaskSystem → List TaskEvent → List SharedPtr
  | _, [] => []
  | s, event :: events =>
      (if event.isTurnOf w then s.handOf w else []) ++ callsOf w (s.next event) events

section OneWorker

variable {s : TaskSystem} {w : WorkerId} {event : TaskEvent}

/-- Until its next turn a worker stays as it is, unless it is created just now. -/
theorem next_worker (hturn : event.isTurnOf w = false) :
    (s.next event).workers[w]? = s.workers[w]? ∨
      (s.workers[w]? = none ∧ (s.next event).workers[w]? = some {}) := by
  cases event with
  | call c method =>
      by_cases hidle : s.clients c = .idle
      · rw [next_call_idle hidle]
        by_cases hcreate : method = .createThread true
        · subst hcreate
          change (s.workers ++ [({} : Worker)])[w]? = _ ∨ _ ∧ (s.workers ++ [({} : Worker)])[w]? = _
          -- A new worker is the last one; the numbers of the others stay.
          rcases Nat.lt_trichotomy w s.workers.length with hlt | rfl | hgt
          · exact .inl (List.getElem?_append_left hlt)
          · exact .inr ⟨List.getElem?_eq_none (Nat.le_refl _), List.getElem?_concat_length⟩
          · refine .inl ?_
            rw [List.getElem?_eq_none (Nat.le_of_lt hgt), List.getElem?_eq_none]
            rwa [List.length_append, List.length_singleton]
        · by_cases hfail : method = .createThread false
          · subst hfail
            exact .inl rfl
          · have hmethod (created : Bool) : method ≠ .createThread created := by
              cases created with
              | false => exact hfail
              | true => exact hcreate
            rw [(startCall_frame s c hmethod).workers]
            exact .inl rfl
      · rw [next_call_busy hidle]
        exact .inl rfl
  | client c =>
      refine .inl ?_
      rw [TaskSystem.next, (clientStep_frame s c).workers]
  | worker w' left =>
      refine .inl ?_
      have hne : w' ≠ w := of_decide_eq_false hturn
      cases hget : s.workers[w']? with
      | none => rw [TaskSystem.next, workerStep_none hget]
      | some worker => rw [TaskSystem.next, workerStep_eq hget, List.getElem?_set_ne hne]

theorem next_handOf (hturn : event.isTurnOf w = false) :
    (s.next event).handOf w = s.handOf w := by
  unfold handOf
  rcases next_worker (s := s) hturn with hsame | ⟨hnone, hnew⟩
  · rw [hsame]
  · rw [hnone, hnew]
    rfl

/-- A worker takes tasks from the front of the queue only, so it has been through a part of what was
popped to be executed, in its order. -/
theorem next_calls {log : List SharedPtr}
    (h : log ++ s.handOf w <+ withFate .executed s.history.removed) :
    log ++ (if event.isTurnOf w then s.handOf w else []) ++ (s.next event).handOf w <+
      withFate .executed (s.next event).history.removed := by
  have hexecuted {s' : TaskSystem} {entries : List (SharedPtr × TaskFate)}
      (hflow : Flow s s' entries) : withFate .executed s'.history.removed =
        withFate .executed s.history.removed ++ withFate .executed entries := by
    simp [hflow.removed, withFate]
  cases hturn : event.isTurnOf w with
  | false =>
      -- Other workers only add to what has been popped.
      rcases next_flow s event with ⟨entries, hflow, -⟩
      rw [next_handOf hturn, hexecuted hflow]
      simp only [Bool.false_eq_true, if_false, List.append_nil]
      exact h.trans (List.sublist_append_left ..)
  | true =>
      cases event with
      | call c method => cases hturn
      | client c => cases hturn
      | worker w' left =>
          cases of_decide_eq_true hturn
          simp only [if_true]
          cases hget : s.workers[w]? with
          | none =>
              rw [TaskSystem.next, workerStep_none hget]
              have hnone : s.handOf w = [] := by simp [handOf, hget]
              rw [hnone] at h ⊢
              simpa using h
          | some worker =>
              rcases s.thread.threadRun_pops s.history left worker with ⟨entries, hpops⟩
              have hw : w < s.workers.length := (List.getElem?_eq_some_iff.1 hget).1
              -- What the worker pops now is in its hand next, behind all that it has executed.
              have hnext : (s.workerStep w left).handOf w = withFate .executed entries := by
                rw [workerStep_eq hget, handOf, List.getElem?_set_self hw]
                exact hpops.inHand
              rw [TaskSystem.next, hnext, hexecuted (workerStep_flow hget hpops)]
              exact h.append_right _

theorem callsOf_sublist {events : List TaskEvent} {s' : TaskSystem} {log : List SharedPtr}
    (h : log ++ s.handOf w <+ withFate .executed s.history.removed)
    (hrun : run step s events = .ok s') :
    log ++ callsOf w s events <+ withFate .executed s'.history.removed := by
  induction events generalizing s log with
  | nil =>
      cases hrun
      rw [callsOf, List.append_nil]
      exact (List.sublist_append_left ..).trans h
  | cons event events ih =>
      rw [run_cons] at hrun
      rw [callsOf, ← List.append_assoc]
      exact ih (next_calls h) hrun

end OneWorker

/-! ## Every task once -/

/-- Each entry has one of the three fates. -/
theorem removed_perm (removed : List (SharedPtr × TaskFate)) :
    removed.map Prod.fst ~ withFate .executed removed ++ withFate .skipped removed ++
      withFate .cleared removed := by
  induction removed with
  | nil => exact .refl _
  | cons entry removed ih =>
      rcases entry with ⟨task, fate⟩
      cases fate with
      | executed => exact ih.cons task
      | skipped =>
          refine (ih.cons task).trans ?_
          exact (List.perm_middle.symm).append_right _
      | cleared => exact (ih.cons task).trans List.perm_middle.symm

/-- With any number of workers and clients, in every state that they can reach: the tasks have left
the queue in the order of acceptance; each accepted task has been passed to `OnDoTask`, is in a
worker's hand, has been skipped as null, has been cleared or is in the queue, and only one of
these, as often as it has been accepted; and each worker has executed its tasks in the order of
acceptance. -/
theorem tasks_once (bRunning : Bool) (events : List TaskEvent) :
    ∃ s, run step (start bRunning) events = .ok s ∧
      s.history.accepted = s.history.removed.map Prod.fst ++ s.thread.taskQueue ∧
      s.history.accepted ~ s.history.calls ++ s.inHand ++ withFate .skipped s.history.removed ++
        withFate .cleared s.history.removed ++ s.thread.taskQueue ∧
      (∀ ptr ∈ s.history.calls ++ s.inHand, ptr ≠ none) ∧
      (∀ ptr ∈ withFate .skipped s.history.removed, ptr = none) ∧
      ∀ w, callsOf w (start bRunning) events <+ s.history.accepted := by
  have htotal (s : TaskSystem) (event : TaskEvent) (_ : True) (_ : True) :
      ∃ s', step s event = .ok s' ∧ True := ⟨s.next event, rfl, trivial⟩
  rcases run_keeps htotal trivial (along_of_forall (start bRunning) fun _ _ => trivial)
    with ⟨s, hrun, -⟩
  rcases run_flow hrun with ⟨entries, hflow, -⟩
  have hremoved : s.history.removed = entries := hflow.removed
  have hcalls : s.history.calls ++ s.inHand ~ withFate .executed entries := hflow.calls
  -- The run begins with nothing accepted, so its flow is the whole history.
  rcases hflow.queue with ⟨pushed, haccepted, hqueue⟩
  have horder : s.history.accepted = entries.map Prod.fst ++ s.thread.taskQueue :=
    haccepted.trans hqueue
  have hfate {ptr : SharedPtr} {fate : TaskFate} (h : ptr ∈ withFate fate entries) :
      fate.Fits ptr := by
    rcases List.mem_map.1 h with ⟨⟨ptr', fate'⟩, hentry, rfl⟩
    rcases List.mem_filter.1 hentry with ⟨hmem, heq⟩
    cases of_decide_eq_true heq
    exact hflow.fits _ hmem
  refine ⟨s, hrun, ?_⟩
  rw [hremoved]
  refine ⟨horder, ?_, fun ptr hptr => hfate (hcalls.mem_iff.1 hptr),
    fun ptr hptr => hfate hptr, fun w => ?_⟩
  · calc
      s.history.accepted = entries.map Prod.fst ++ s.thread.taskQueue := horder
      _ ~ withFate .executed entries ++ withFate .skipped entries ++ withFate .cleared entries ++
            s.thread.taskQueue := (removed_perm entries).append_right _
      _ ~ s.history.calls ++ s.inHand ++ withFate .skipped entries ++ withFate .cleared entries ++
            s.thread.taskQueue :=
          ((hcalls.symm.append_right _).append_right _).append_right _
  · have hstart : [] ++ (start bRunning).handOf w <+
        withFate .executed (start bRunning).history.removed := .refl []
    have hexecuted := callsOf_sublist hstart hrun
    rw [List.nil_append, hremoved] at hexecuted
    have hfates : withFate .executed entries <+ entries.map Prod.fst :=
      List.filter_sublist.map Prod.fst
    rw [horder]
    exact (hexecuted.trans hfates).trans (List.sublist_append_left ..)

/-- Two workers have popped a task each, and the later one comes first to its `OnDoTask`. -/
def overtaken : List TaskEvent :=
  [.call 0 (.createThread true), .call 0 (.createThread true)] ++
    List.replicate 4 (.worker 0 none) ++ List.replicate 5 (.worker 1 none) ++
    [.call 0 (.pushTask (some 7)), .client 0, .call 0 (.pushTask (some 8)), .client 0,
      .worker 0 none, .worker 0 none, .worker 1 none, .worker 1 none, .worker 0 none]

example : (run step (start false) overtaken).map (·.history.calls) = .ok [some 8, some 7] := rfl

/-! ## No task waits for ever -/

end TaskSystem

/-- `StopThread` or `DelayStopThread` is called. -/
def TaskEvent.stops : TaskEvent → Bool
  | .call _ .stopThread => true
  | .call _ .delayStopThread => true
  | _ => false

/-- The steps of a worker up to its next `PopTask`, and 0 if it has left its loop. -/
def WorkerPc.toPop : WorkerPc → Nat
  | .enter => 6
  | .init => 5
  | .setRunning => 4
  | .onDoTask => 4
  | .setState2 => 3
  | .inTask => 3
  | .whileTest => 2
  | .popTask => 1
  | _ => 0

/-- The worker is in its loop or will come there. -/
structure TTaskThread.Serves (this : TTaskThread) (worker : Worker) : Prop where
  loops : 0 < worker.pc.toPop
  bRunning : worker.pc.Started → this.bRunning = true

/-- Only `StopThread` sets `bRunning` to false. -/
theorem TTaskThread.threadRun_bRunning {this : TTaskThread} (h : this.bRunning = true)
    (left : SharedPtr) (worker : Worker) : (this.threadRun left worker).1.bRunning = true := by
  rcases worker with ⟨pc, pCacheTask⟩
  cases pc with
  | setRunning => rfl
  | whileTest => simp [threadRun, h]
  | popTask =>
      rw [threadRun_popTask]
      rcases this.taskQueue with _ | ⟨_ | object, rest⟩ <;> exact h
  | _ => exact h

/-- A worker that serves goes on, and when there are tasks each step brings it closer to its next
`PopTask`, or is this `PopTask`. -/
theorem TTaskThread.threadRun_serves {history : TaskHistory} {this : TTaskThread} {left : SharedPtr}
    {worker : Worker} {entries : List (SharedPtr × TaskFate)} (h : this.Serves worker)
    (hpops : this.Pops history left worker entries) :
    (this.threadRun left worker).1.Serves (this.threadRun left worker).2 ∧
      (this.taskQueue ≠ [] →
        (this.threadRun left worker).2.pc.toPop + 1 ≤ worker.pc.toPop + 4 * entries.length) := by
  rcases worker with ⟨pc, pCacheTask⟩
  have hcloser {m n : Nat} (hmn : m + 1 ≤ n) : m + 1 ≤ n + 4 * entries.length :=
    Nat.le_trans hmn (Nat.le_add_right _ _)
  cases pc with
  | enter => exact ⟨⟨Nat.succ_pos _, nofun⟩, fun _ => hcloser (Nat.le_refl _)⟩
  | init => exact ⟨⟨Nat.succ_pos _, nofun⟩, fun _ => hcloser (Nat.le_refl _)⟩
  | setRunning => exact ⟨⟨Nat.succ_pos _, fun _ => rfl⟩, fun _ => hcloser (Nat.le_refl _)⟩
  | setState2 =>
      have hrunning := h.bRunning rfl
      exact ⟨⟨Nat.succ_pos _, fun _ => hrunning⟩, fun _ => hcloser (Nat.le_refl _)⟩
  | whileTest =>
      have hrunning := h.bRunning rfl
      have hnext : this.threadRun left ⟨.whileTest, pCacheTask⟩ = (this, ⟨.popTask, pCacheTask⟩) :=
        if_pos hrunning
      rw [hnext]
      exact ⟨⟨Nat.succ_pos _, fun _ => hrunning⟩, fun _ => hcloser (Nat.le_refl _)⟩
  | popTask =>
      have hrunning := h.bRunning rfl
      have hback : WorkerPc.whileTest.toPop + 1 ≤ WorkerPc.popTask.toPop + 4 * 1 := by decide
      have htaken : WorkerPc.onDoTask.toPop + 1 ≤ WorkerPc.popTask.toPop + 4 * 1 := by decide
      have hqueue := congrArg List.length hpops.queue
      rw [threadRun_popTask] at hqueue ⊢
      rw [List.length_append, List.length_map] at hqueue
      generalize this.taskQueue = queue at hqueue ⊢
      -- The task that is popped makes up for the way to the next `PopTask`.
      rcases queue with _ | ⟨_ | object, rest⟩
      · exact ⟨⟨Nat.succ_pos _, fun _ => hrunning⟩, fun hne => absurd rfl hne⟩
      · have hone : 1 = entries.length := Nat.add_right_cancel ((Nat.add_comm _ _).trans hqueue)
        exact ⟨⟨Nat.succ_pos _, fun _ => hrunning⟩, fun _ => by rw [← hone]; exact hback⟩
      · have hone : 1 = entries.length := Nat.add_right_cancel ((Nat.add_comm _ _).trans hqueue)
        exact ⟨⟨Nat.succ_pos _, fun _ => hrunning⟩, fun _ => by rw [← hone]; exact htaken⟩
  | onDoTask =>
      have hrunning := h.bRunning rfl
      exact ⟨⟨Nat.succ_pos _, fun _ => hrunning⟩, fun _ => hcloser (Nat.le_refl _)⟩
  | inTask =>
      have hrunning := h.bRunning rfl
      exact ⟨⟨Nat.succ_pos _, fun _ => hrunning⟩, fun _ => hcloser (Nat.le_refl _)⟩
  | setState3 => exact absurd h.loops (Nat.lt_irrefl 0)
  | destory => exact absurd h.loops (Nat.lt_irrefl 0)
  | exited => exact absurd h.loops (Nat.lt_irrefl 0)

namespace TaskSystem

def toPop (s : TaskSystem) (w : WorkerId) : Nat :=
  (s.workers[w]?.map (·.pc.toPop)).getD 0

/-- Worker `w` is in its loop or will come there. -/
def Serves (s : TaskSystem) (w : WorkerId) : Prop :=
  ∃ worker, s.workers[w]? = some worker ∧ s.thread.Serves worker

section Serves

variable {s : TaskSystem} {w : WorkerId} {event : TaskEvent}

theorem toPop_eq {worker : Worker} (hget : s.workers[w]? = some worker) :
    s.toPop w = worker.pc.toPop := by
  rw [toPop, hget]
  rfl

theorem next_bRunning (hstops : event.stops = false) (h : s.thread.bRunning = true) :
    (s.next event).thread.bRunning = true := by
  cases event with
  | call c method =>
      by_cases hidle : s.clients c = .idle
      · rw [next_call_idle hidle]
        cases method with
        | createThread created => cases created <;> exact h
        | stopThread => cases hstops
        | joinThread => exact h
        | delayStopThread => cases hstops
        | pushTask inTask =>
            rcases startCall_pushTask s c inTask with hcall | hcall
            · rwa [hcall]
            · rwa [hcall]
        | clearTaskQueue => exact h
      · rwa [next_call_busy hidle]
  | client c =>
      rw [TaskSystem.next]
      unfold clientStep
      split
      · exact h
      · exact h
      · split <;> exact h
      · split <;> exact h
  | worker w left =>
      rw [TaskSystem.next]
      cases hget : s.workers[w]? with
      | none => rwa [workerStep_none hget]
      | some worker =>
          rw [workerStep_eq hget]
          exact TTaskThread.threadRun_bRunning h left worker

/-- Without a stop a worker that serves goes on.  When there are tasks, its turns bring it closer to
its next `PopTask`, or are this `PopTask`. -/
theorem Serves.next (h : s.Serves w) (hstops : event.stops = false)
    {entries : List (SharedPtr × TaskFate)} (hflow : Flow s (s.next event) entries) :
    (s.next event).Serves w ∧ (s.thread.taskQueue ≠ [] →
      (s.next event).toPop w + (event.isTurnOf w).toNat ≤ s.toPop w + 4 * entries.length) := by
  rcases h with ⟨worker, hget, hserves⟩
  rw [toPop_eq hget]
  cases hturn : event.isTurnOf w with
  | false =>
      have hnext : (s.next event).workers[w]? = some worker := by
        rcases next_worker (s := s) hturn with hsame | ⟨hnone, -⟩
        · rw [hsame, hget]
        · rw [hget] at hnone
          cases hnone
      rw [toPop_eq hnext]
      refine ⟨⟨worker, hnext, hserves.loops, ?_⟩, fun _ => Nat.le_add_right _ _⟩
      exact fun hstarted => next_bRunning hstops (hserves.bRunning hstarted)
  | true =>
      cases event with
      | call c method => cases hturn
      | client c => cases hturn
      | worker w' left =>
          cases of_decide_eq_true hturn
          rcases s.thread.threadRun_pops s.history left worker with ⟨popped, hpops⟩
          -- What has left the queue in this step is what the worker has popped.
          have hentries : popped = entries :=
            List.append_cancel_left ((workerStep_flow hget hpops).removed.symm.trans hflow.removed)
          subst hentries
          have hw : w < s.workers.length := (List.getElem?_eq_some_iff.1 hget).1
          have hnext : (s.workerStep w left).workers[w]? =
              some (s.thread.threadRun left worker).2 := by
            rw [workerStep_eq hget]
            exact List.getElem?_set_self hw
          rcases TTaskThread.threadRun_serves hserves hpops with ⟨hserves', hcloser⟩
          refine ⟨⟨_, hnext, ?_⟩, ?_⟩
          · rwa [TaskSystem.next, workerStep_eq hget]
          · rw [TaskSystem.next, toPop_eq hnext]
            exact hcloser

/-- The turns of worker `w` that are enough until `n` tasks have left the queue, when there are so
many: a turn for each `PopTask`, and three from each to the next. -/
def waiting (w : WorkerId) (n : Nat) (s : TaskSystem) : Nat :=
  if n ≤ s.history.removed.length then 0
  else s.toPop w + 4 * (n - s.history.removed.length - 1)

/-- `n` tasks have been in the queue. -/
def HaveCome (n : Nat) (s : TaskSystem) : Prop :=
  n ≤ s.history.removed.length + s.thread.taskQueue.length

theorem HaveCome.of_flow {n : Nat} {s' : TaskSystem} {entries : List (SharedPtr × TaskFate)}
    (h : HaveCome n s) (hflow : Flow s s' entries) : HaveCome n s' := by
  rcases hflow.queue with ⟨pushed, -, hqueue⟩
  have hlength := congrArg List.length hqueue
  rw [List.length_append, List.length_append, List.length_map] at hlength
  unfold HaveCome at h ⊢
  rw [hflow.removed, List.length_append]
  omega

theorem Serves.waiting_next {n : Nat} (h : s.Serves w) (hcome : HaveCome n s)
    (hstops : event.stops = false) :
    ((s.next event).Serves w ∧ HaveCome n (s.next event)) ∧
      waiting w n (s.next event) ≤ waiting w n s - (event.isTurnOf w).toNat := by
  rcases next_flow s event with ⟨entries, hflow, -⟩
  rcases h.next hstops hflow with ⟨hserves, hcloser⟩
  refine ⟨⟨hserves, hcome.of_flow hflow⟩, ?_⟩
  have hremoved : (s.next event).history.removed.length =
      s.history.removed.length + entries.length := by
    rw [hflow.removed, List.length_append]
  unfold waiting
  rw [hremoved]
  by_cases hdone : n ≤ s.history.removed.length + entries.length
  · rw [if_pos hdone]
    exact Nat.zero_le _
  · -- There is a task in the queue for the next `PopTask`.
    have hqueue : s.thread.taskQueue ≠ [] := by
      intro hnil
      unfold HaveCome at hcome
      rw [hnil, List.length_nil] at hcome
      exact hdone (Nat.le_trans hcome (Nat.le_add_right _ _))
    have hbefore : ¬ n ≤ s.history.removed.length :=
      fun hle => hdone (Nat.le_trans hle (Nat.le_add_right _ _))
    have hturn := hcloser hqueue
    rw [if_neg hdone, if_neg hbefore]
    omega

end Serves

/-- A worker that is in its loop, or will come there, is enough: if nobody stops the thread, then
after a bounded number of turns of this worker every task that was in the queue has left it,
whatever other workers, producers and clients do in between; and it has been popped unless somebody
has cleared the queue. -/
theorem queue_served {s s' : TaskSystem} {w : WorkerId} {events : List TaskEvent}
    (hserves : s.Serves w) (hstops : ∀ event ∈ events, event.stops = false)
    (hturns : s.toPop w + 4 * s.thread.taskQueue.length ≤ turns w events + 4)
    (hrun : run step s events = .ok s') :
    s'.Serves w ∧ ∃ entries, Flow s s' entries ∧ s.thread.taskQueue <+: entries.map Prod.fst ∧
      ∀ entry ∈ entries, entry.2 = .cleared → ∃ c, .call c .clearTaskQueue ∈ events := by
  rcases run_flow hrun with ⟨entries, hflow, hcleared⟩
  let n := s.history.removed.length + s.thread.taskQueue.length
  have hstep (t : TaskSystem) (event : TaskEvent) (t' : TaskSystem)
      (ht : t.Serves w ∧ HaveCome n t) (hevent : event.stops = false)
      (hnext : step t event = .ok t') : (t'.Serves w ∧ HaveCome n t') ∧
        waiting w n t' ≤ waiting w n t - (event.isTurnOf w).toNat := by
    cases hnext
    exact ht.1.waiting_next ht.2 hevent
  rcases rank_of_run hstep ⟨hserves, Nat.le_refl _⟩ hstops hrun with ⟨⟨hserves', -⟩, hrank⟩
  refine ⟨hserves', entries, hflow, ?_, hcleared⟩
  -- A worker in its loop has its next `PopTask` before it, so the rank is 0 only if all have left.
  have hpositive : 0 < s'.toPop w := by
    rcases hserves' with ⟨worker, hget, hworker⟩
    rw [toPop_eq hget]
    exact hworker.loops
  -- The worker has had enough turns, so none is left to wait for.
  have hleft : s.thread.taskQueue.length ≤ entries.length := by
    unfold waiting at hrank
    rw [hflow.removed, List.length_append] at hrank
    by_contra hless
    rw [if_neg (fun hle => hless (Nat.add_le_add_iff_left.1 hle))] at hrank
    unfold turns at hturns
    split at hrank
    · omega
    · omega
  rcases hflow.queue with ⟨pushed, -, hqueue⟩
  refine List.prefix_of_prefix_length_le (List.prefix_append _ pushed) ?_ ?_
  · rw [hqueue]
    exact List.prefix_append _ _
  · rwa [List.length_map]

/-- A worker is running, and two tasks have been pushed. -/
def twoTasks : TaskSystem :=
  List.foldl next (start false)
    ([.call 0 (.createThread true)] ++ List.replicate 5 (.worker 0 none) ++
      [.call 1 (.pushTask (some 7)), .client 1, .call 1 (.pushTask none), .client 1])

/-- A third task comes while the worker executes the first. -/
def service : List TaskEvent :=
  [.worker 0 none, .call 1 (.pushTask (some 9)), .worker 0 none, .client 1, .worker 0 none,
    .worker 0 none, .worker 0 none]

theorem queue_served_service :
    (service.foldl next twoTasks).Serves 0 ∧ ∃ entries,
      Flow twoTasks (service.foldl next twoTasks) entries ∧
      twoTasks.thread.taskQueue <+: entries.map Prod.fst ∧
      ∀ entry ∈ entries, entry.2 = .cleared → ∃ c, .call c .clearTaskQueue ∈ service :=
  queue_served ⟨_, rfl, by decide, fun _ => rfl⟩ (by decide) (by decide) rfl

end TaskSystem

end Septem
