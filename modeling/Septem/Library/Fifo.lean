import Mathlib.Data.List.Basic

/-!
# Fifo — the queue as an abstract component

What a first-in-first-out queue does, in its own terms: the pending elements are a list, `push`
appends, `pop` delivers the oldest one if there is one.  `run_conservation` is the law of such a
queue: what was delivered, followed by what is pending, is what was pushed.
-/

namespace Fifo

universe u

inductive Op (α : Type u)
  | push (x : α)
  | pop

variable {α : Type u}

/-- The pending elements after an operation. -/
def next : List α → Op α → List α
  | pending, .push x => pending ++ [x]
  | pending, .pop => pending.tail

/-- The element an operation delivers. -/
def delivered? : List α → Op α → Option α
  | _, .push _ => none
  | pending, .pop => pending.head?

/-- The elements pending after a run. -/
def pendingAfter : List α → List (Op α) → List α
  | pending, [] => pending
  | pending, op :: ops => pendingAfter (next pending op) ops

/-- The elements a run delivers, in order. -/
def deliveredBy : List α → List (Op α) → List α
  | _, [] => []
  | pending, op :: ops => (delivered? pending op).toList ++ deliveredBy (next pending op) ops

/-- The elements a run pushes, in order. -/
def pushedBy : List (Op α) → List α
  | [] => []
  | .push x :: ops => x :: pushedBy ops
  | .pop :: ops => pushedBy ops

/-! ## Runs one after the other -/

theorem pendingAfter_append (pending : List α) (ops ops' : List (Op α)) :
    pendingAfter pending (ops ++ ops') = pendingAfter (pendingAfter pending ops) ops' := by
  induction ops generalizing pending with
  | nil => rfl
  | cons op ops ih => exact ih (next pending op)

theorem deliveredBy_append (pending : List α) (ops ops' : List (Op α)) :
    deliveredBy pending (ops ++ ops') =
      deliveredBy pending ops ++ deliveredBy (pendingAfter pending ops) ops' := by
  induction ops generalizing pending with
  | nil => rfl
  | cons op ops ih =>
      simp only [List.cons_append, deliveredBy, pendingAfter, ih (next pending op),
        List.append_assoc]

theorem pushedBy_append (ops ops' : List (Op α)) :
    pushedBy (ops ++ ops') = pushedBy ops ++ pushedBy ops' := by
  induction ops with
  | nil => rfl
  | cons op ops ih =>
      cases op with
      | push x => simp only [List.cons_append, pushedBy, ih]
      | pop => exact ih

/-! ## The law of the queue -/

/-- Nothing is lost, duplicated or reordered. -/
theorem run_conservation (pending : List α) (ops : List (Op α)) :
    deliveredBy pending ops ++ pendingAfter pending ops = pending ++ pushedBy ops := by
  induction ops generalizing pending with
  | nil => simp [deliveredBy, pendingAfter, pushedBy]
  | cons op ops ih =>
      cases op with
      | push x =>
          simp only [deliveredBy, delivered?, Option.toList_none, List.nil_append, pendingAfter,
            ih, next, pushedBy, List.append_assoc, List.cons_append]
      | pop =>
          cases pending with
          | nil =>
              simp only [deliveredBy, delivered?, List.head?_nil, Option.toList_none, next,
                List.tail_nil, List.nil_append, pendingAfter, ih, pushedBy]
          | cons x rest =>
              simp only [deliveredBy, delivered?, List.head?_cons, Option.toList_some, next,
                List.tail_cons, List.cons_append, List.nil_append, pendingAfter, ih, pushedBy]

/-- From the empty queue, the elements delivered are a prefix of the elements pushed. -/
theorem deliveredBy_prefix (ops : List (Op α)) : deliveredBy [] ops <+: pushedBy ops :=
  ⟨pendingAfter [] ops, run_conservation [] ops⟩

end Fifo
