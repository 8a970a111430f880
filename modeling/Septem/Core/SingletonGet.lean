import Septem.Library.SharedHeap
import Septem.Library.Threads

/-!
# SingletonGet — concurrent calls of a singleton's `Get` and `GetRef`

`TSingleton` of `Core/Templates/SeptemSingleton.hpp` and the three classes of `Servo/Protocol` that
repeat it test `pSingleton` against null, lock, and construct the object, whose constructor checks
that it is the first one.  They do not test again behind the lock, so the lock protects nothing: a
thread that has found null constructs an object, whatever happened while it waited.

A run is right as long as nobody tests while another thread is between its test and its store
(`TestAlone`), and one test that breaks this rule is enough for a run to end in the failed check.
-/

namespace Septem

open Cxx

/-- The classes that share the code of `Get`. -/
inductive SingletonClass
  | tSingleton
  | fServoProtocol
  | fProtocolFactory
  | tServoProtocol
  deriving DecidableEq, Repr

/-- What the constructor's `check` reports when it fails. -/
def SingletonClass.assertion : SingletonClass → String
  | .tSingleton => "nullptr == pSingleton"
  | .fServoProtocol => "Protocol singleton can't create 2 object!"
  | .fProtocolFactory => "singleton can't create 2 object!"
  | .tServoProtocol => "Protocol singleton can't create 2 object!"

/-- Where a thread is in `Get`. -/
inductive GetPc
  /-- `if (nullptr == pSingleton)` -/
  | test
  /-- the lock guard -/
  | lock
  /-- `pSingleton = new T()` -/
  | construct
  /-- the end of the guard's scope -/
  | unlock
  /-- `return pSingleton` -/
  | ret
  deriving DecidableEq, Repr

/-- What the threads share. -/
structure SingletonState where
  pSingleton : SharedPtr := none
  lockHolder : Option ThreadId := none
  /-- how often the constructor has been run; the number of the next object -/
  constructions : Nat := 0
  /-- the check that has ended the program -/
  failed : Option String := none
  /-- what the calls have returned, in order -/
  returned : List SharedPtr := []
  deriving DecidableEq, Repr

namespace SingletonState

/-- One step of a thread in `Get`, or in `GetRef`, which returns `*pSingleton`; a thread that has
returned calls it again. -/
def getStep (cls : SingletonClass) (t : ThreadId) (this : SingletonState) (pc : GetPc) :
    SingletonState × GetPc :=
  if this.failed ≠ none then
    (this, pc)
  else
    match pc with
    | .test => if this.pSingleton = none then (this, .lock) else (this, .ret)
    | .lock =>
        if this.lockHolder = none then
          ({ this with lockHolder := some t }, .construct)
        else
          (this, .lock)
    | .construct =>
        -- The constructor checks `pSingleton` and sets it, and `Get` sets it once more.
        if this.pSingleton = none then
          ({ this with
            pSingleton := some this.constructions
            constructions := this.constructions + 1 }, .unlock)
        else
          ({ this with
            constructions := this.constructions + 1
            failed := some cls.assertion }, .construct)
    | .unlock => ({ this with lockHolder := none }, .ret)
    | .ret => ({ this with returned := this.returned ++ [this.pSingleton] }, .test)

end SingletonState

/-- Any number of threads at the start of `Get`. -/
abbrev GetThreads : Type := Threads SingletonState GetPc

namespace GetThreads

def start : GetThreads :=
  { shared := {}, locals := fun _ => .test }

def step (cls : SingletonClass) : GetThreads → ThreadId → Checked GetThreads :=
  Threads.step (SingletonState.getStep cls)

/-- Between a test that found null and the store. -/
def InGap (pc : GetPc) : Prop :=
  pc = .lock ∨ pc = .construct

/-- Between `lock` and `unlock`. -/
def HoldsLock (pc : GetPc) : Prop :=
  pc = .construct ∨ pc = .unlock

/-- Before the end of the locked section. -/
def NotPast (pc : GetPc) : Prop :=
  pc ≠ .unlock ∧ pc ≠ .ret

/-- When the thread tests and finds null, no thread is between its own test and its store. -/
def TestAlone (s : GetThreads) (t : ThreadId) : Prop :=
  s.locals t = .test → s.shared.pSingleton = none → ∀ u, ¬ InGap (s.locals u)

/-! ## The invariant -/

/-- No object yet: nobody has passed the construction. -/
structure BeforeStore (s : GetThreads) : Prop where
  unset : s.shared.pSingleton = none
  constructions : s.shared.constructions = 0
  returned : s.shared.returned = []
  locals : ∀ t, NotPast (s.locals t)

/-- The first object is stored: nobody is about to construct another one. -/
structure AfterStore (s : GetThreads) : Prop where
  stored : s.shared.pSingleton = some 0
  constructions : s.shared.constructions = 1
  returned : ∀ ptr ∈ s.shared.returned, ptr = some 0
  locals : ∀ t, ¬ InGap (s.locals t)

structure Good (s : GetThreads) : Prop where
  running : s.shared.failed = none
  alone : AtMostOne InGap s.locals
  holder : ∀ t, s.shared.lockHolder = some t ↔ HoldsLock (s.locals t)
  phase : BeforeStore s ∨ AfterStore s

theorem start_good : Good start where
  running := rfl
  alone := by
    intro t u ht _
    rcases ht with h | h <;> cases h
  holder := by
    intro t
    refine iff_of_false nofun ?_
    rintro (h | h) <;> cases h
  phase := .inl ⟨rfl, rfl, rfl, fun _ => ⟨nofun, nofun⟩⟩

/-! ## Steps -/

section Steps

variable (cls : SingletonClass) {s : GetThreads} {t : ThreadId}

/-- The step a thread takes is the one `getStep` gives. -/
theorem step_eq {shared : SingletonState} {pc mine : GetPc}
    (hpc : s.locals t = pc) (hact : SingletonState.getStep cls t s.shared pc = (shared, mine)) :
    step cls s t = .ok (s.set t shared mine) := by
  rw [step, Threads.step, hpc, hact]
  rfl

theorem step_test (hrun : s.shared.failed = none) (hpc : s.locals t = .test)
    (hnull : s.shared.pSingleton = none) : step cls s t = .ok (s.set t s.shared .lock) := by
  refine step_eq cls hpc ?_
  simp only [SingletonState.getStep, if_neg (not_not_intro hrun), if_pos hnull]

theorem step_lock (hrun : s.shared.failed = none) (hpc : s.locals t = .lock)
    (hfree : s.shared.lockHolder = none) :
    step cls s t = .ok (s.set t { s.shared with lockHolder := some t } .construct) := by
  refine step_eq cls hpc ?_
  simp only [SingletonState.getStep, if_neg (not_not_intro hrun), if_pos hfree]

theorem step_construct (hrun : s.shared.failed = none) (hpc : s.locals t = .construct)
    (hnull : s.shared.pSingleton = none) :
    step cls s t = .ok (s.set t { s.shared with
      pSingleton := some s.shared.constructions
      constructions := s.shared.constructions + 1 } .unlock) := by
  refine step_eq cls hpc ?_
  simp only [SingletonState.getStep, if_neg (not_not_intro hrun), if_pos hnull]

/-- A second constructor ends the program. -/
theorem step_construct_again (hrun : s.shared.failed = none) (hpc : s.locals t = .construct)
    (hset : s.shared.pSingleton ≠ none) :
    step cls s t = .ok (s.set t { s.shared with
      constructions := s.shared.constructions + 1
      failed := some cls.assertion } .construct) := by
  refine step_eq cls hpc ?_
  simp only [SingletonState.getStep, if_neg (not_not_intro hrun), if_neg hset]

theorem step_unlock (hrun : s.shared.failed = none) (hpc : s.locals t = .unlock) :
    step cls s t = .ok (s.set t { s.shared with lockHolder := none } .ret) := by
  refine step_eq cls hpc ?_
  simp only [SingletonState.getStep, if_neg (not_not_intro hrun)]

/-- The lock does not change hands when the thread holds it before and after, or neither. -/
theorem holder_set (h : ∀ u, s.shared.lockHolder = some u ↔ HoldsLock (s.locals u))
    {mine : GetPc} (hmine : HoldsLock mine ↔ HoldsLock (s.locals t)) (shared : SingletonState) :
    ∀ u, s.shared.lockHolder = some u ↔ HoldsLock ((s.set t shared mine).locals u) := by
  intro u
  by_cases hu : u = t
  · subst hu
    rw [s.set_locals_self, hmine, h u]
  · rw [s.set_locals_of_ne hu, h u]

theorem Good.test_null (h : Good s) (hpc : s.locals t = .test)
    (hnull : s.shared.pSingleton = none) (halone : ∀ u, ¬ InGap (s.locals u)) :
    Good (s.set t s.shared .lock) where
  running := h.running
  alone := .of_others (fun u _ => halone u) _
  holder := holder_set h.holder (by rw [hpc]; simp [HoldsLock]) _
  phase := by
    have hmine : NotPast .lock := ⟨nofun, nofun⟩
    rcases h.phase with hbefore | hafter
    · exact .inl ⟨hnull, hbefore.constructions, hbefore.returned,
        Threads.forall_set NotPast hmine (fun u _ => hbefore.locals u) _⟩
    · rw [hafter.stored] at hnull
      cases hnull

theorem Good.afterStore (h : Good s) (hset : s.shared.pSingleton ≠ none) : AfterStore s := by
  rcases h.phase with hbefore | hafter
  · exact absurd hbefore.unset hset
  · exact hafter

theorem Good.test_set (h : Good s) (hpc : s.locals t = .test)
    (hset : s.shared.pSingleton ≠ none) : Good (s.set t s.shared .ret) := by
  have hafter := h.afterStore hset
  have hgap : ¬ InGap .ret := by simp [InGap]
  exact
    { running := h.running
      alone := h.alone.leave hgap _
      holder := holder_set h.holder (by rw [hpc]; simp [HoldsLock]) _
      phase := .inr ⟨hafter.stored, hafter.constructions, hafter.returned,
        Threads.forall_set (¬ InGap ·) hgap (fun u _ => hafter.locals u) _⟩ }

/-- A thread in the gap finds no object. -/
theorem Good.beforeStore (h : Good s) (hgap : InGap (s.locals t)) : BeforeStore s := by
  rcases h.phase with hbefore | hafter
  · exact hbefore
  · exact absurd hgap (hafter.locals t)

theorem Good.lock_free (h : Good s) (hpc : s.locals t = .lock)
    (hfree : s.shared.lockHolder = none) :
    Good (s.set t { s.shared with lockHolder := some t } .construct) where
  running := h.running
  alone := .of_others (h.alone.others (.inl hpc)) _
  holder := by
    intro u
    by_cases hu : u = t
    · subst hu
      exact iff_of_true rfl (by simp [HoldsLock])
    · have hnot : ¬ HoldsLock (s.locals u) := by
        rw [← h.holder u, hfree]
        exact nofun
      refine iff_of_false (fun heq => hu (Option.some.inj heq).symm) ?_
      rwa [s.set_locals_of_ne hu]
  phase := by
    have hbefore := h.beforeStore (.inl hpc)
    have hmine : NotPast .construct := ⟨nofun, nofun⟩
    exact .inl ⟨hbefore.unset, hbefore.constructions, hbefore.returned,
      Threads.forall_set NotPast hmine (fun u _ => hbefore.locals u) _⟩

/-- The object is stored, and the thread that stored it was alone in the gap. -/
theorem Good.construct (h : Good s) (hpc : s.locals t = .construct) :
    Good (s.set t { s.shared with
      pSingleton := some s.shared.constructions
      constructions := s.shared.constructions + 1 } .unlock) := by
  have hbefore := h.beforeStore (.inr hpc)
  have hothers := h.alone.others (.inr hpc)
  have hgap : ¬ InGap .unlock := by simp [InGap]
  exact
    { running := h.running
      alone := .of_others hothers _
      holder := holder_set h.holder (by rw [hpc]; simp [HoldsLock]) _
      phase := .inr
        { stored := by simp [hbefore.constructions]
          constructions := by simp [hbefore.constructions]
          returned := by simp [hbefore.returned]
          locals := Threads.forall_set (¬ InGap ·) hgap hothers _ } }

/-- A thread that is past the construction finds the object. -/
theorem Good.afterStore_of_past (h : Good s) (hpast : ¬ NotPast (s.locals t)) : AfterStore s := by
  rcases h.phase with hbefore | hafter
  · exact absurd (hbefore.locals t) hpast
  · exact hafter

theorem Good.unlock (h : Good s) (hpc : s.locals t = .unlock) :
    Good (s.set t { s.shared with lockHolder := none } .ret) := by
  have hheld : s.shared.lockHolder = some t := (h.holder t).2 (.inr hpc)
  have hafter : AfterStore s := h.afterStore_of_past fun hnot => hnot.1 hpc
  have hgap : ¬ InGap .ret := by simp [InGap]
  exact
    { running := h.running
      alone := h.alone.leave hgap _
      holder := by
        intro u
        refine iff_of_false nofun ?_
        by_cases hu : u = t
        · subst hu
          simp [HoldsLock]
        · rw [s.set_locals_of_ne hu, ← h.holder u, hheld]
          exact fun heq => hu (Option.some.inj heq).symm
      phase := .inr ⟨hafter.stored, hafter.constructions, hafter.returned,
        Threads.forall_set (¬ InGap ·) hgap (fun u _ => hafter.locals u) _⟩ }

theorem Good.ret (h : Good s) (hpc : s.locals t = .ret) :
    Good (s.set t { s.shared with
      returned := s.shared.returned ++ [s.shared.pSingleton] } .test) := by
  have hafter : AfterStore s := h.afterStore_of_past fun hnot => hnot.2 hpc
  have hgap : ¬ InGap .test := by simp [InGap]
  exact
    { running := h.running
      alone := h.alone.leave hgap _
      holder := holder_set h.holder (by rw [hpc]; simp [HoldsLock]) _
      phase := .inr
        { stored := hafter.stored
          constructions := hafter.constructions
          returned := by
            intro ptr hptr
            rcases List.mem_append.1 hptr with hold | hnew
            · exact hafter.returned ptr hold
            · rw [List.mem_singleton.1 hnew, hafter.stored]
          locals := Threads.forall_set (¬ InGap ·) hgap (fun u _ => hafter.locals u) _ } }

/-- A step that is not a careless test keeps the invariant. -/
theorem step_good (h : Good s) (hop : TestAlone s t) :
    ∃ s', step cls s t = .ok s' ∧ Good s' := by
  have hrun : ¬ s.shared.failed ≠ none := not_not_intro h.running
  cases hpc : s.locals t with
  | test =>
      by_cases hnull : s.shared.pSingleton = none
      · exact ⟨_, step_test cls h.running hpc hnull, h.test_null hpc hnull (hop hpc hnull)⟩
      · refine ⟨_, step_eq cls hpc ?_, h.test_set hpc hnull⟩
        simp only [SingletonState.getStep, if_neg hrun, if_neg hnull]
  | lock =>
      by_cases hfree : s.shared.lockHolder = none
      · exact ⟨_, step_lock cls h.running hpc hfree, h.lock_free hpc hfree⟩
      · -- The thread waits.
        have hsame : s.set t s.shared .lock = s := by
          rw [Threads.set, ← hpc, Function.update_eq_self]
        refine ⟨s.set t s.shared .lock, step_eq cls hpc ?_, by rwa [hsame]⟩
        simp only [SingletonState.getStep, if_neg hrun, if_neg hfree]
  | construct =>
      have hnull := (h.beforeStore (t := t) (.inr hpc)).unset
      exact ⟨_, step_construct cls h.running hpc hnull, h.construct hpc⟩
  | unlock =>
      exact ⟨_, step_unlock cls h.running hpc, h.unlock hpc⟩
  | ret =>
      refine ⟨_, step_eq cls hpc ?_, h.ret hpc⟩
      simp only [SingletonState.getStep, if_neg hrun]

/-! ## A careless test -/

/-- A thread that constructs leaves its object and a free lock to the others. -/
theorem construct_and_unlock (hrun : s.shared.failed = none) (hpc : s.locals t = .construct)
    (hnull : s.shared.pSingleton = none) :
    ∃ s', run (step cls) s [t, t] = .ok s' ∧ s'.shared = { s.shared with
      pSingleton := some s.shared.constructions
      lockHolder := none
      constructions := s.shared.constructions + 1 } ∧
      ∀ u, u ≠ t → s'.locals u = s.locals u := by
  have hstored := step_construct cls hrun hpc hnull
  generalize hs₁ : s.set t _ GetPc.unlock = s₁ at hstored
  have hunlocked : step cls s₁ t = .ok (s₁.set t { s₁.shared with lockHolder := none } .ret) :=
    step_unlock cls (by simp [← hs₁, hrun]) (by simp [← hs₁])
  refine ⟨s₁.set t { s₁.shared with lockHolder := none } .ret, ?_, ?_, ?_⟩
  · rw [run, hstored, Checked.ok_bind, run, hunlocked, Checked.ok_bind, run, Checked.pure_eq_ok]
  · simp [← hs₁]
  · intro u hne
    rw [s₁.set_locals_of_ne hne, ← hs₁, s.set_locals_of_ne hne]

/-- A thread that is at the lock goes on as it decided before, object or not. -/
theorem lock_and_fail (hrun : s.shared.failed = none) (hpc : s.locals t = .lock)
    (hfree : s.shared.lockHolder = none) (hset : s.shared.pSingleton ≠ none) :
    ∃ s', run (step cls) s [t, t] = .ok s' ∧ s'.shared.failed = some cls.assertion ∧
      s'.shared.constructions = s.shared.constructions + 1 := by
  have hlocked := step_lock cls hrun hpc hfree
  generalize hs₁ : s.set t _ GetPc.construct = s₁ at hlocked
  have hfailed := step_construct_again cls (s := s₁) (t := t)
    (by simp [← hs₁, hrun]) (by simp [← hs₁]) (by simpa [← hs₁] using hset)
  generalize hs₂ : s₁.set t _ GetPc.construct = s₂ at hfailed
  refine ⟨s₂, ?_, ?_, ?_⟩
  · rw [run, hlocked, Checked.ok_bind, run, hfailed, Checked.ok_bind, run, Checked.pure_eq_ok]
  · simp [← hs₂]
  · simp [← hs₂, ← hs₁]

/-- One thread about to construct and one about to lock: both will have constructed an object. -/
theorem second_construction (hrun : s.shared.failed = none) (hnull : s.shared.pSingleton = none)
    (hzero : s.shared.constructions = 0) {u : ThreadId} (hu : s.locals u = .construct)
    (ht : s.locals t = .lock) :
    ∃ s', run (step cls) s ([u, u] ++ [t, t]) = .ok s' ∧
      s'.shared.failed = some cls.assertion ∧ s'.shared.constructions = 2 := by
  have hne : t ≠ u := by
    rintro rfl
    rw [ht] at hu
    cases hu
  rcases construct_and_unlock cls hrun hu hnull with ⟨s₁, hfirst, hshared, hlocals⟩
  have ht₁ : s₁.locals t = .lock := by rw [hlocals t hne, ht]
  rcases lock_and_fail cls (by simp [hshared, hrun]) ht₁ (by simp [hshared])
    (by simp [hshared]) with ⟨s₂, hsecond, hfailed, htwo⟩
  refine ⟨s₂, ?_, hfailed, ?_⟩
  · rw [run_append, hfirst, Checked.ok_bind, hsecond]
  · rw [htwo, hshared, hzero]

/-- A careless test can be followed by a failed check. -/
theorem Good.careless (h : Good s) (hop : ¬ TestAlone s t) :
    ∃ rest s', run (step cls) s (t :: rest) = .ok s' ∧
      s'.shared.failed = some cls.assertion ∧ s'.shared.constructions = 2 := by
  have hcase : ∃ u, s.locals t = .test ∧ s.shared.pSingleton = none ∧ InGap (s.locals u) := by
    by_contra hnone
    refine hop fun hpc hnull u hgap => hnone ⟨u, hpc, hnull, hgap⟩
  rcases hcase with ⟨u, hpc, hnull, hgap⟩
  have hne : u ≠ t := by
    rintro rfl
    rw [hpc] at hgap
    rcases hgap with hat | hat <;> cases hat
  have htest := step_test cls h.running hpc hnull
  have hzero := (h.beforeStore hgap).constructions
  rcases hgap with hlock | hconstruct
  · -- Nobody holds the lock: its holder would be a second thread in the gap.
    have hfree : s.shared.lockHolder = none := by
      by_contra hheld
      rcases Option.ne_none_iff_exists'.1 hheld with ⟨v, hv⟩
      rcases (h.holder v).1 hv with hat | hat
      · rw [h.alone v u (.inr hat) (.inl hlock), hlock] at hat
        cases hat
      · exact ((h.beforeStore (.inl hlock)).locals v).1 hat
    generalize hs₁ : s.set t s.shared .lock = s₁ at htest
    have hlocked : step cls s₁ u =
        .ok (s₁.set u { s₁.shared with lockHolder := some u } .construct) :=
      step_lock cls (by simp [← hs₁, h.running])
        (by rw [← hs₁, s.set_locals_of_ne hne, hlock]) (by simp [← hs₁, hfree])
    generalize hs₂ : s₁.set u _ GetPc.construct = s₂ at hlocked
    have ht : s₂.locals t = .lock := by
      rw [← hs₂, s₁.set_locals_of_ne hne.symm, ← hs₁, s.set_locals_self]
    have hu : s₂.locals u = .construct := by rw [← hs₂, s₁.set_locals_self]
    rcases second_construction cls (by simp [← hs₂, ← hs₁, h.running])
      (by simp [← hs₂, ← hs₁, hnull]) (by simp [← hs₂, ← hs₁, hzero]) hu ht
      with ⟨s', hrun, hend⟩
    refine ⟨u :: ([u, u] ++ [t, t]), s', ?_, hend⟩
    rw [run, htest, Checked.ok_bind, run, hlocked, Checked.ok_bind, hrun]
  · generalize hs₁ : s.set t s.shared .lock = s₁ at htest
    have hu : s₁.locals u = .construct := by rw [← hs₁, s.set_locals_of_ne hne, hconstruct]
    have ht : s₁.locals t = .lock := by rw [← hs₁, s.set_locals_self]
    rcases second_construction cls (by simp [← hs₁, h.running])
      (by simp [← hs₁, hnull]) (by simp [← hs₁, hzero]) hu ht with ⟨s', hrun, hend⟩
    refine ⟨[u, u] ++ [t, t], s', ?_, hend⟩
    rw [run, htest, Checked.ok_bind, hrun]

end Steps

/-! ## One object -/

/-- The constructor has been run at most once, its check has not failed, and all calls have
returned the same object. -/
structure OneObject (s : GetThreads) : Prop where
  constructions : s.shared.constructions ≤ 1
  running : s.shared.failed = none
  returned : ∀ ptr ∈ s.shared.returned, ptr ≠ none ∧ ∀ other ∈ s.shared.returned, other = ptr

theorem Good.oneObject {s : GetThreads} (h : Good s) : OneObject s where
  constructions := by
    rcases h.phase with hbefore | hafter
    · rw [hbefore.constructions]
      decide
    · exact Nat.le_of_eq hafter.constructions
  running := h.running
  returned := by
    rcases h.phase with hbefore | hafter
    · rw [hbefore.returned]
      exact nofun
    · intro ptr hptr
      rw [hafter.returned ptr hptr]
      exact ⟨nofun, hafter.returned⟩

/-- The object is never taken back. -/
theorem getStep_stored (cls : SingletonClass) (t : ThreadId) {shared : SingletonState}
    (hset : shared.pSingleton ≠ none) (pc : GetPc) :
    (SingletonState.getStep cls t shared pc).1.pSingleton ≠ none := by
  unfold SingletonState.getStep
  split
  · exact hset
  · cases pc with
    | test => simp [hset]
    | lock =>
        dsimp only
        split <;> exact hset
    | construct => simp [hset]
    | unlock => exact hset
    | ret => exact hset

/-- Once there is an object, every test finds it. -/
theorem along_of_stored (cls : SingletonClass) {s : GetThreads}
    (hset : s.shared.pSingleton ≠ none) (schedule : List ThreadId) :
    Along (step cls) TestAlone s schedule := by
  induction schedule generalizing s with
  | nil => exact trivial
  | cons t rest ih =>
      refine ⟨fun _ hnull => absurd hnull hset, ?_⟩
      intro s' hs'
      cases hs'
      exact ih (getStep_stored cls t hset (s.locals t))

/-- When a first call has stored its object before anyone else calls, the others may call in any
number and any order. -/
theorem along_of_first_call (cls : SingletonClass) (t : ThreadId) (schedule : List ThreadId) :
    Along (step cls) TestAlone start (t :: t :: t :: schedule) := by
  have hbusy {s : GetThreads} (hpc : s.locals t ≠ .test) : TestAlone s t :=
    fun hat => absurd hat hpc
  refine ⟨fun _ _ u => by simp [start, InGap], fun s₁ hs₁ => ?_⟩
  rw [step_test cls rfl rfl rfl] at hs₁
  cases hs₁
  refine ⟨hbusy (by simp), fun s₂ hs₂ => ?_⟩
  rw [step_lock cls rfl (Threads.set_locals_self ..) rfl] at hs₂
  cases hs₂
  refine ⟨hbusy (by simp), fun s₃ hs₃ => ?_⟩
  rw [step_construct cls rfl (Threads.set_locals_self ..) rfl] at hs₃
  cases hs₃
  exact along_of_stored cls (by simp) schedule

/-- As long as every test that finds null is made while no other thread is in its gap, one object
is constructed and returned by all; any other test can end in the failed check. -/
theorem get_creates_one (cls : SingletonClass) (schedule : List ThreadId)
    (h : Along (step cls) TestAlone start schedule) :
    ∃ s, run (step cls) start schedule = .ok s ∧ OneObject s ∧
      ∀ t, ¬ TestAlone s t → ∃ rest s', run (step cls) s (t :: rest) = .ok s' ∧
        s'.shared.failed = some cls.assertion ∧ s'.shared.constructions = 2 := by
  rcases run_keeps (fun _ _ hs hop => step_good cls hs hop) start_good h with ⟨s, hrun, hgood⟩
  exact ⟨s, hrun, hgood.oneObject, fun t hop => hgood.careless cls hop⟩

/-- Two threads, one after the other. -/
theorem get_creates_one_sequential :
    ∃ s, run (step .fServoProtocol) start [0, 0, 0, 0, 0, 1, 1] = .ok s ∧ OneObject s ∧
      ∀ t, ¬ TestAlone s t → ∃ rest s',
        run (step .fServoProtocol) s (t :: rest) = .ok s' ∧
          s'.shared.failed = some SingletonClass.fServoProtocol.assertion ∧
          s'.shared.constructions = 2 :=
  get_creates_one .fServoProtocol [0, 0, 0, 0, 0, 1, 1]
    (along_of_first_call .fServoProtocol 0 [0, 0, 1, 1])

/-- Both threads test before the first one has stored its object. -/
theorem get_constructs_two :
    ¬ ∀ (cls : SingletonClass) (schedule : List ThreadId) (s : GetThreads),
      run (step cls) start schedule = .ok s → OneObject s := by
  intro h
  have hone := h .fServoProtocol [0, 1, 0, 0, 0, 1, 1] _ rfl
  cases hone.running

end GetThreads

end Septem
