import Mathlib.Data.List.Perm.Basic
import Mathlib.Logic.Function.Basic
import Septem.Library.Run

/-!
# Threads — any number of threads over shared state

Every thread runs the same program.  One atomic step of a thread works on the shared state and on
the thread's own; a thread that is blocked takes a step that changes nothing.  A schedule is the
list of the threads whose turn it is, so a run of `Threads.step` is an interleaving.

`AtMostOne` is the usual invariant of a section of the program: a step of a thread keeps it if the
thread leaves the section, or if nobody else is in it.  `LockedBy` is the invariant of a lock: who
holds it is in the section it protects, and nobody else is.  `Recorded` is the invariant of a list
that a proof keeps of the threads in a section.

`flatMap_set_perm` is for parties in a list that hold items each: one party changes hands for
another, and all others keep what they hold.
-/

namespace Cxx

universe u v

abbrev ThreadId : Type := Nat

structure Threads (γ : Type u) (α : Type v) where
  shared : γ
  locals : ThreadId → α

variable {γ : Type u} {α : Type v}

/-- The threads after thread `t` has left `shared` and `mine` behind. -/
def Threads.set (s : Threads γ α) (t : ThreadId) (shared : γ) (mine : α) : Threads γ α :=
  { shared, locals := Function.update s.locals t mine }

@[simp] theorem Threads.set_shared (s : Threads γ α) (t : ThreadId) (shared : γ) (mine : α) :
    (s.set t shared mine).shared = shared := rfl

@[simp] theorem Threads.set_locals_self (s : Threads γ α) (t : ThreadId) (shared : γ) (mine : α) :
    (s.set t shared mine).locals t = mine := by
  simp [Threads.set]

/-- A step of one thread leaves the others where they are. -/
theorem Threads.set_locals_of_ne (s : Threads γ α) {t u : ThreadId} (h : u ≠ t) (shared : γ)
    (mine : α) : (s.set t shared mine).locals u = s.locals u := by
  simp [Threads.set, h]

/-- Only the last of two steps of one thread is seen in its place. -/
@[simp] theorem Threads.set_set (s : Threads γ α) (t : ThreadId) (shared shared' : γ)
    (mine mine' : α) : (s.set t shared mine).set t shared' mine' = s.set t shared' mine' := by
  simp [Threads.set]

/-- What holds of a thread that moved and of all others holds of all. -/
theorem Threads.forall_set (P : α → Prop) {s : Threads γ α} {t : ThreadId} {mine : α}
    (hmine : P mine) (hothers : ∀ u, u ≠ t → P (s.locals u)) (shared : γ) :
    ∀ u, P ((s.set t shared mine).locals u) :=
  (Function.forall_update_iff s.locals fun _ x => P x).2 ⟨hmine, hothers⟩

def Threads.step (act : ThreadId → γ → α → γ × α) (s : Threads γ α) (t : ThreadId) :
    Checked (Threads γ α) :=
  let (shared, mine) := act t s.shared (s.locals t)
  pure (s.set t shared mine)

/-- The same for a program whose steps can fault, and depend on an input. -/
def Threads.turn {ο : Type} (act : ThreadId → ο → γ → α → Checked (γ × α)) (s : Threads γ α)
    (turn : ThreadId × ο) : Checked (Threads γ α) := do
  let (shared, mine) ← act turn.1 turn.2 s.shared (s.locals turn.1)
  return s.set turn.1 shared mine

theorem Threads.turn_ok {ο : Type} {act : ThreadId → ο → γ → α → Checked (γ × α)}
    {s : Threads γ α} {t : ThreadId} {input : ο} {shared : γ} {mine : α}
    (h : act t input s.shared (s.locals t) = .ok (shared, mine)) :
    Threads.turn act s (t, input) = .ok (s.set t shared mine) := by
  rw [Threads.turn, h]
  rfl

/-- At most one thread is where `P` holds. -/
def AtMostOne (P : α → Prop) (locals : ThreadId → α) : Prop :=
  ∀ t u, P (locals t) → P (locals u) → t = u

section AtMostOne

variable {P : α → Prop} {s : Threads γ α} {t : ThreadId} {mine : α}

theorem AtMostOne.others (h : AtMostOne P s.locals) (ht : P (s.locals t)) :
    ∀ u, u ≠ t → ¬ P (s.locals u) := fun u hne hu => hne (h u t hu ht)

/-- A thread may move anywhere when no other is in the section. -/
theorem AtMostOne.of_others (hothers : ∀ u, u ≠ t → ¬ P (s.locals u)) (shared : γ) :
    AtMostOne P (s.set t shared mine).locals := by
  have hself (u : ThreadId) (hu : P ((s.set t shared mine).locals u)) : u = t := by
    by_contra hne
    rw [s.set_locals_of_ne hne] at hu
    exact hothers u hne hu
  intro u v hu hv
  rw [hself u hu, hself v hv]

/-- A thread may move out of the section. -/
theorem AtMostOne.leave (h : AtMostOne P s.locals) (hmine : ¬ P mine) (shared : γ) :
    AtMostOne P (s.set t shared mine).locals := by
  have hold (u : ThreadId) (hu : P ((s.set t shared mine).locals u)) : P (s.locals u) := by
    by_cases hne : u = t
    · subst hne
      rw [s.set_locals_self] at hu
      exact absurd hu hmine
    · rwa [s.set_locals_of_ne hne] at hu
  intro u v hu hv
  exact h u v (hold u hu) (hold v hv)

end AtMostOne

/-- The lock is held by the thread where `P` holds, and free when there is none. -/
def LockedBy (holder : Option ThreadId) (P : α → Prop) (locals : ThreadId → α) : Prop :=
  ∀ t, holder = some t ↔ P (locals t)

section LockedBy

variable {P : α → Prop} {s : Threads γ α} {t : ThreadId} {mine : α} {holder : Option ThreadId}

theorem LockedBy.atMostOne (h : LockedBy holder P s.locals) : AtMostOne P s.locals := by
  intro t u ht hu
  have hholder := (h t).2 ht
  rw [(h u).2 hu] at hholder
  exact (Option.some.inj hholder).symm

/-- The lock does not change hands when the thread is in the section before and after, or
neither. -/
theorem LockedBy.keep (h : LockedBy holder P s.locals) (hmine : P mine ↔ P (s.locals t))
    (shared : γ) : LockedBy holder P (s.set t shared mine).locals := by
  intro u
  by_cases hu : u = t
  · subst hu
    rw [s.set_locals_self, hmine, h u]
  · rw [s.set_locals_of_ne hu, h u]

theorem LockedBy.acquire (h : LockedBy none P s.locals) (hmine : P mine) (shared : γ) :
    LockedBy (some t) P (s.set t shared mine).locals := by
  intro u
  by_cases hu : u = t
  · subst hu
    rw [s.set_locals_self]
    exact iff_of_true rfl hmine
  · rw [s.set_locals_of_ne hu, ← h u]
    exact iff_of_false (fun heq => hu (Option.some.inj heq).symm) nofun

theorem LockedBy.release (h : LockedBy holder P s.locals) (ht : P (s.locals t)) (hmine : ¬ P mine)
    (shared : γ) : LockedBy none P (s.set t shared mine).locals := by
  intro u
  by_cases hu : u = t
  · subst hu
    rw [s.set_locals_self]
    exact iff_of_false nofun hmine
  · rw [s.set_locals_of_ne hu]
    exact iff_of_false nofun (h.atMostOne.others ht u hu)

end LockedBy

/-- The threads where `P` holds are on the record, each once. -/
def Recorded (record : List ThreadId) (P : α → Prop) (locals : ThreadId → α) : Prop :=
  record.Nodup ∧ ∀ t, t ∈ record ↔ P (locals t)

section Recorded

variable {P : α → Prop} {s : Threads γ α} {t : ThreadId} {mine : α} {record : List ThreadId}

theorem Recorded.keep (h : Recorded record P s.locals) (hmine : P mine ↔ P (s.locals t))
    (shared : γ) : Recorded record P (s.set t shared mine).locals := by
  refine ⟨h.1, ?_⟩
  intro u
  by_cases hu : u = t
  · subst hu
    rw [s.set_locals_self, hmine, h.2 u]
  · rw [s.set_locals_of_ne hu, h.2 u]

theorem Recorded.enter (h : Recorded record P s.locals) (hbefore : ¬ P (s.locals t))
    (hmine : P mine) (shared : γ) : Recorded (t :: record) P (s.set t shared mine).locals := by
  refine ⟨List.nodup_cons.2 ⟨fun hmem => hbefore ((h.2 t).1 hmem), h.1⟩, ?_⟩
  intro u
  by_cases hu : u = t
  · subst hu
    rw [s.set_locals_self]
    exact iff_of_true List.mem_cons_self hmine
  · rw [s.set_locals_of_ne hu, List.mem_cons, or_iff_right hu, h.2 u]

theorem Recorded.leave (h : Recorded record P s.locals) (hmine : ¬ P mine) (shared : γ) :
    Recorded (record.erase t) P (s.set t shared mine).locals := by
  refine ⟨h.1.erase t, ?_⟩
  intro u
  by_cases hu : u = t
  · subst hu
    rw [s.set_locals_self]
    exact iff_of_false h.1.not_mem_erase hmine
  · rw [s.set_locals_of_ne hu, List.mem_erase_of_ne hu, h.2 u]

end Recorded

open scoped List in
/-- With a new party in the place of an old one there are the items of the new one in place of the
old one's. -/
theorem flatMap_set_perm {π : Type u} {ι : Type v} (holds : π → List ι) {parties : List π} {i : Nat}
    {old : π} (hget : parties[i]? = some old) (new : π) :
    (parties.set i new).flatMap holds ++ holds old ~ parties.flatMap holds ++ holds new := by
  rcases List.getElem?_eq_some_iff.1 hget with ⟨hi, hold⟩
  let others := (parties.eraseIdx i).flatMap holds
  have hset (party : π) : (parties.set i party).flatMap holds ~ holds party ++ others :=
    (List.set_perm_cons_eraseIdx hi party).flatMap_right holds
  have hbefore := hset old
  rw [← hold, List.set_getElem_self, hold] at hbefore
  calc
    (parties.set i new).flatMap holds ++ holds old
      ~ holds new ++ others ++ holds old := (hset new).append_right _
    _ ~ holds old ++ (holds new ++ others) := List.perm_append_comm
    _ ~ holds old ++ (others ++ holds new) := List.perm_append_comm.append_left _
    _ = holds old ++ others ++ holds new := (List.append_assoc ..).symm
    _ ~ parties.flatMap holds ++ holds new := hbefore.symm.append_right _

end Cxx
