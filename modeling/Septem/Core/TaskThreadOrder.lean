import Septem.Core.TaskThread

/-!
# TaskThreadOrder — every task once and in order

Tasks leave the queue at its front only, so the tasks accepted so far are those that have left it,
in the same order, and those that are still in it (`TaskHistory.Tracks`).  With one worker at a
time, `OnDoTask` has been called with the tasks that were popped to be executed, one after the
other, except that the last of them may still be in the worker's hand.
-/

namespace Septem

open Cxx

/-! ## What the history says -/

/-- Only tasks that are not null are executed, and only null is skipped. -/
def TaskFate.Fits (task : SharedPtr) : TaskFate → Prop
  | .executed => task ≠ none
  | .skipped => task = none
  | .cleared => True

/-- The history fits a queue and the tasks that have been popped but not yet passed on. -/
structure TaskHistory.Tracks (history : TaskHistory) (queue inHand : List SharedPtr) : Prop where
  accounted : history.accepted = history.removed.map Prod.fst ++ queue
  calls : history.calls ++ inHand = TaskHistory.withFate .executed history.removed
  fits : ∀ entry ∈ history.removed, entry.2.Fits entry.1

namespace TaskHistory

variable {history : TaskHistory} {queue inHand : List SharedPtr}

theorem Tracks.push (h : history.Tracks queue inHand) (task : SharedPtr) :
    { history with accepted := history.accepted ++ [task] }.Tracks (queue ++ [task]) inHand where
  accounted := by rw [h.accounted, List.append_assoc]
  calls := h.calls
  fits := h.fits

/-- The first tasks of the queue meet their fates; those to be executed are in hand now. -/
theorem Tracks.remove {entries : List (SharedPtr × TaskFate)}
    (h : history.Tracks (entries.map Prod.fst ++ queue) inHand)
    (hfits : ∀ entry ∈ entries, entry.2.Fits entry.1) :
    { history with removed := history.removed ++ entries }.Tracks queue
      (inHand ++ withFate .executed entries) where
  accounted := by simp [h.accounted]
  calls := by
    have hfate : withFate .executed (history.removed ++ entries) =
        withFate .executed history.removed ++ withFate .executed entries := by
      simp [withFate]
    rw [hfate, ← h.calls, List.append_assoc]
  fits := by
    intro entry hentry
    rcases List.mem_append.1 hentry with hold | hnew
    · exact h.fits entry hold
    · exact hfits entry hnew

theorem Tracks.clear (h : history.Tracks queue inHand) :
    { history with removed := history.removed ++ queue.map (·, TaskFate.cleared) }.Tracks []
      inHand := by
  have hqueue : (queue.map (·, TaskFate.cleared)).map Prod.fst = queue := by
    simp [Function.comp_def]
  have hnone : withFate .executed (queue.map (·, TaskFate.cleared)) = [] := by
    simp [withFate]
  have hall : history.Tracks ((queue.map (·, TaskFate.cleared)).map Prod.fst ++ []) inHand := by
    rwa [hqueue, List.append_nil]
  have hremove := hall.remove (by
    intro entry hentry
    rcases List.mem_map.1 hentry with ⟨task, -, rfl⟩
    exact trivial)
  rwa [hnone, List.append_nil] at hremove

/-- The task at the front of the queue is taken to be executed. -/
theorem Tracks.take {object : ObjectId} (h : history.Tracks (some object :: queue) []) :
    { history with removed := history.removed ++ [(some object, TaskFate.executed)] }.Tracks queue
      [some object] := by
  have hfront : history.Tracks ([(some object, TaskFate.executed)].map Prod.fst ++ queue) [] := h
  refine hfront.remove ?_
  intro entry hentry
  rw [List.mem_singleton.1 hentry]
  exact nofun

/-- A null task at the front of the queue is skipped. -/
theorem Tracks.skip (h : history.Tracks (none :: queue) []) :
    { history with removed := history.removed ++ [(none, TaskFate.skipped)] }.Tracks queue
      [] := by
  have hfront : history.Tracks ([(none, TaskFate.skipped)].map Prod.fst ++ queue) [] := h
  refine hfront.remove ?_
  intro entry hentry
  rw [List.mem_singleton.1 hentry]
  rfl

/-- The task in the worker's hand is passed to `OnDoTask`. -/
theorem Tracks.call {task : SharedPtr} (h : history.Tracks queue [task]) :
    { history with calls := history.calls ++ [task] }.Tracks queue [] where
  accounted := h.accounted
  calls := (List.append_nil _).trans h.calls
  fits := h.fits

/-- The calls are some of the accepted tasks, in their order. -/
theorem Tracks.calls_sublist (h : history.Tracks queue inHand) :
    history.calls.Sublist history.accepted := by
  have hcalls : history.calls.Sublist (withFate .executed history.removed) := by
    rw [← h.calls]
    exact List.sublist_append_left ..
  have hfates : (withFate .executed history.removed).Sublist (history.removed.map Prod.fst) :=
    List.filter_sublist.map Prod.fst
  refine (hcalls.trans hfates).trans ?_
  rw [h.accounted]
  exact List.sublist_append_left ..

theorem Tracks.calls_ne_null (h : history.Tracks queue inHand) :
    ∀ ptr ∈ history.calls, ptr ≠ none := by
  intro ptr hptr
  have hfate : ptr ∈ withFate .executed history.removed := by
    rw [← h.calls]
    exact List.mem_append_left inHand hptr
  rcases List.mem_map.1 hfate with ⟨⟨ptr', fate⟩, hentry, rfl⟩
  rcases List.mem_filter.1 hentry with ⟨hmem, hfate⟩
  cases of_decide_eq_true hfate
  exact h.fits _ hmem

end TaskHistory

/-! ## One worker -/

/-- The task that a worker has popped and will pass to `OnDoTask` next. -/
def Worker.inHand (worker : Worker) : List SharedPtr :=
  if worker.pc = .onDoTask then [worker.pCacheTask] else []

/-- A step of a worker keeps the history right. -/
theorem TTaskThread.threadRun_tracks {history : TaskHistory} {this : TTaskThread}
    {worker : Worker} (h : history.Tracks this.taskQueue worker.inHand) (left : SharedPtr) :
    (history.record this worker).Tracks (this.threadRun left worker).1.taskQueue
      (this.threadRun left worker).2.inHand := by
  rcases worker with ⟨pc, pCacheTask⟩
  cases pc with
  | whileTest =>
      by_cases hrunning : this.bRunning
      · simp only [threadRun, TaskHistory.record, if_pos hrunning]
        exact ⟨h.accounted, h.calls, h.fits⟩
      · simp only [threadRun, TaskHistory.record, if_neg hrunning]
        exact h
  | popTask =>
      rw [threadRun_popTask]
      simp only [TaskHistory.record]
      generalize hqueue : this.taskQueue = queue at h ⊢
      rcases queue with _ | ⟨_ | object, rest⟩
      · rw [hqueue]
        exact h
      · exact h.skip
      · exact h.take
  | onDoTask => exact h.call
  | _ => exact h

namespace TaskSystem

/-- All tasks that workers have popped and will pass to `OnDoTask` next. -/
def inHand (s : TaskSystem) : List SharedPtr :=
  s.workers.flatMap Worker.inHand

/-- A thread is created only when all workers before it have ended. -/
def OneWorker (s : TaskSystem) (event : TaskEvent) : Prop :=
  event.creates = true → ∀ worker ∈ s.workers, worker.pc = .exited

instance (s : TaskSystem) (event : TaskEvent) : Decidable (OneWorker s event) :=
  inferInstanceAs (Decidable (event.creates = true → ∀ worker ∈ s.workers, worker.pc = .exited))

/-- All workers but possibly the last one have ended, and the history is right. -/
structure InOrder (s : TaskSystem) : Prop where
  alone : ∃ (ended : List Worker) (worker : Option Worker),
    s.workers = ended ++ worker.toList ∧ ∀ old ∈ ended, old.pc = .exited
  tracks : s.history.Tracks s.thread.taskQueue s.inHand

theorem start_inOrder (bRunning : Bool) : InOrder (start bRunning) where
  alone := ⟨[], none, rfl, nofun⟩
  tracks := ⟨rfl, rfl, nofun⟩

section InOrder

variable {s : TaskSystem}

/-- Workers that have ended hold nothing. -/
theorem inHand_of_ended {ended : List Worker} (h : ∀ old ∈ ended, old.pc = .exited) :
    ended.flatMap Worker.inHand = [] := by
  refine List.flatMap_eq_nil_iff.2 ?_
  intro old hold
  simp [Worker.inHand, h old hold]

theorem InOrder.startCall (h : InOrder s) (c : ThreadId) {method : TaskCall}
    (hone : OneWorker s (.call c method)) : InOrder (s.startCall c method) := by
  cases method with
  | createThread created =>
      cases created with
      | false => exact h
      | true =>
          have hended := hone rfl
          refine ⟨⟨s.workers, some {}, rfl, hended⟩, ?_⟩
          have hnew : (s.startCall c (.createThread true)).inHand = s.inHand := by
            simp [inHand, TaskSystem.startCall, Worker.inHand]
          rw [hnew]
          exact h.tracks
  | stopThread => exact ⟨h.alone, h.tracks⟩
  | joinThread => exact ⟨h.alone, h.tracks⟩
  | delayStopThread => exact ⟨h.alone, h.tracks⟩
  | pushTask inTask =>
      rcases startCall_pushTask s c inTask with hcall | hcall
      · rw [hcall]
        exact ⟨h.alone, h.tracks⟩
      · rwa [hcall]
  | clearTaskQueue => exact ⟨h.alone, h.tracks.clear⟩

theorem InOrder.clientStep (h : InOrder s) (c : ThreadId) : InOrder (s.clientStep c) := by
  unfold TaskSystem.clientStep
  split
  · exact h
  · exact ⟨h.alone, h.tracks.push _⟩
  · split <;> exact ⟨h.alone, h.tracks⟩
  · split
    · exact ⟨h.alone, h.tracks⟩
    · exact h

/-- A worker that has ended takes no more steps. -/
theorem workerStep_ended {w : WorkerId} {worker : Worker} (hget : s.workers[w]? = some worker)
    (hended : worker.pc = .exited) (left : SharedPtr) : s.workerStep w left = s := by
  rcases worker with ⟨pc, pCacheTask⟩
  cases hended
  rcases List.getElem?_eq_some_iff.1 hget with ⟨hw, hself⟩
  have hset : s.workers.set w ⟨.exited, pCacheTask⟩ = s.workers := by
    rw [← hself, List.set_getElem_self]
  rw [workerStep_eq hget]
  simp only [TTaskThread.threadRun, TaskHistory.record, hset]

/-- The step of the last worker, when all others have ended. -/
theorem InOrder.lastStep (h : InOrder s) {ended : List Worker} {worker : Worker}
    (hworkers : s.workers = ended ++ [worker]) (hended : ∀ old ∈ ended, old.pc = .exited)
    (left : SharedPtr) : InOrder (s.workerStep ended.length left) := by
  have hget : s.workers[ended.length]? = some worker := by
    rw [hworkers, List.getElem?_concat_length]
  have hset (next : Worker) : s.workers.set ended.length next = ended ++ [next] := by
    rw [hworkers, List.set_append_right _ _ (Nat.le_refl _), Nat.sub_self]
    rfl
  -- What is in hand is in the hand of the last worker, before and after.
  have hhand (last : Worker) : (ended ++ [last]).flatMap Worker.inHand = last.inHand := by
    rw [List.flatMap_append, inHand_of_ended hended, List.nil_append, List.flatMap_singleton]
  have htracks : s.history.Tracks s.thread.taskQueue worker.inHand := by
    rw [← hhand worker, ← hworkers]
    exact h.tracks
  rw [workerStep_eq hget, hset]
  refine ⟨⟨ended, some _, rfl, hended⟩, ?_⟩
  rw [inHand, hhand]
  exact TTaskThread.threadRun_tracks htracks left

theorem InOrder.workerStep (h : InOrder s) (w : WorkerId) (left : SharedPtr) :
    InOrder (s.workerStep w left) := by
  rcases h.alone with ⟨ended, last, hworkers, hended⟩
  cases hget : s.workers[w]? with
  | none => rwa [workerStep_none hget]
  | some worker =>
      by_cases hw : w < ended.length
      · have hold : worker ∈ ended := by
          rw [hworkers, List.getElem?_append_left hw] at hget
          exact List.mem_of_getElem? hget
        rwa [workerStep_ended hget (hended worker hold)]
      · have hlen : w < s.workers.length := (List.getElem?_eq_some_iff.1 hget).1
        cases last with
        | none =>
            rw [hworkers, Option.toList_none, List.append_nil] at hlen
            exact absurd hlen hw
        | some last =>
            rw [hworkers, Option.toList_some, List.length_append, List.length_singleton] at hlen
            have hlast : w = ended.length :=
              Nat.le_antisymm (Nat.lt_succ_iff.1 hlen) (Nat.not_lt.1 hw)
            rw [hlast]
            exact h.lastStep hworkers hended left

theorem InOrder.next (h : InOrder s) {event : TaskEvent} (hone : OneWorker s event) :
    InOrder (s.next event) := by
  cases event with
  | call c method =>
      by_cases hidle : s.clients c = .idle
      · rw [next_call_idle hidle]
        exact h.startCall c hone
      · rwa [next_call_busy hidle]
  | client c => exact h.clientStep c
  | worker w left => exact h.workerStep w left

/-- There is at most one task between its `PopTask` and its `OnDoTask`. -/
theorem InOrder.length_inHand (h : InOrder s) : s.inHand.length ≤ 1 := by
  rcases h.alone with ⟨ended, last, hworkers, hended⟩
  rw [inHand, hworkers, List.flatMap_append, inHand_of_ended hended, List.nil_append]
  cases last with
  | none => decide
  | some worker =>
      rw [Option.toList_some, List.flatMap_singleton, Worker.inHand]
      split
      · exact Nat.le_refl 1
      · exact Nat.zero_le 1

end InOrder

/-- A `PopTask` that finds no task: nothing is executed, and the worker tests `bRunning` again. -/
theorem workerStep_empty {s : TaskSystem} {w : WorkerId} {pCacheTask : SharedPtr}
    (hget : s.workers[w]? = some ⟨.popTask, pCacheTask⟩) (hempty : s.thread.taskQueue = [])
    (left : SharedPtr) : s.workerStep w left =
      { s with workers := s.workers.set w ⟨.whileTest, pCacheTask⟩ } := by
  rw [workerStep_eq hget, TTaskThread.threadRun_popTask]
  simp only [TaskHistory.record, hempty]

/-- In every state that one worker at a time and any number of clients can reach, every accepted
task is in the queue or has met exactly one fate, in the order of acceptance; and `OnDoTask` has
been called once with each task that was popped to be executed, in this order, except that the
last of them may be in the worker's hand. -/
theorem tasks_in_order (bRunning : Bool) (events : List TaskEvent)
    (h : Along step OneWorker (start bRunning) events) :
    ∃ s, run step (start bRunning) events = .ok s ∧
      s.history.Tracks s.thread.taskQueue s.inHand ∧ s.inHand.length ≤ 1 ∧
      s.history.calls.Sublist s.history.accepted ∧ (∀ ptr ∈ s.history.calls, ptr ≠ none) ∧
      ∀ w pCacheTask left, s.workers[w]? = some ⟨.popTask, pCacheTask⟩ →
        s.thread.taskQueue = [] → (s.workerStep w left).history = s.history ∧
          (s.workerStep w left).workers = s.workers.set w ⟨.whileTest, pCacheTask⟩ := by
  have hstep (s : TaskSystem) (event : TaskEvent) (hs : InOrder s) (hone : OneWorker s event) :
      ∃ s', step s event = .ok s' ∧ InOrder s' := ⟨s.next event, rfl, hs.next hone⟩
  rcases run_keeps hstep (start_inOrder bRunning) h with ⟨s, hrun, horder⟩
  refine ⟨s, hrun, horder.tracks, horder.length_inHand, horder.tracks.calls_sublist,
    horder.tracks.calls_ne_null, ?_⟩
  intro w pCacheTask left hget hempty
  rw [workerStep_empty hget hempty left]
  exact ⟨rfl, rfl⟩

/-- Two clients push while the worker starts; it skips the null pointer. -/
def twoProducers : List TaskEvent :=
  [.call 0 (.createThread true), .worker 0 none, .worker 0 none, .worker 0 none, .worker 0 none,
    .call 1 (.pushTask (some 7)), .call 2 (.pushTask none), .client 2, .client 1,
    .worker 0 none, .worker 0 none, .worker 0 none, .worker 0 none, .call 0 .stopThread,
    .worker 0 none, .worker 0 (some 7), .worker 0 none]

theorem tasks_in_order_twoProducers :
    ∃ s, run step (start false) twoProducers = .ok s ∧
      s.history.Tracks s.thread.taskQueue s.inHand ∧ s.inHand.length ≤ 1 ∧
      s.history.calls.Sublist s.history.accepted ∧ (∀ ptr ∈ s.history.calls, ptr ≠ none) ∧
      ∀ w pCacheTask left, s.workers[w]? = some ⟨.popTask, pCacheTask⟩ →
        s.thread.taskQueue = [] → (s.workerStep w left).history = s.history ∧
          (s.workerStep w left).workers = s.workers.set w ⟨.whileTest, pCacheTask⟩ :=
  tasks_in_order false twoProducers (by decide)

example : (run step (start false) twoProducers).map (·.history.removed) =
    .ok [(none, .skipped), (some 7, .executed)] := rfl

end TaskSystem

end Septem
