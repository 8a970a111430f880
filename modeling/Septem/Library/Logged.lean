import Septem.Library.WhileLoop

/-!
# Logged — evaluations that keep a log of what they did

What a C++ function returns says little about the memory it touched on the way.  A `Logged`
evaluation is a `Checked` one that also appends events to a log, the newest last.

The module provides

1. `record`, and `readAt` and `assignAndLog` for the accesses to an array;
2. `run_bind_eq_ok` and its companions, which take apart a run that returned;
3. `Erases`: without its log the evaluation is a given `Checked` one;
4. `Orderly`: every event of a log was allowed by what stood before it, and `Extends` for the
   evaluations that keep this;
5. `loggedLoop`, the `while` loop, with its erasure, its invariant rule and a rule for the number of
   events it logs, and `forLoop`, the counted loop.
-/

namespace Cxx

/-- An evaluation that appends to a log of events. -/
abbrev Logged (ε α : Type) : Type := StateT (List ε) (Except Fault) α

namespace Logged

variable {ε α β : Type}

/-- The event is appended to the log. -/
def record (event : ε) : Logged ε Unit :=
  modify fun log => log ++ [event]

/-- `xs[i]`; the event tells the index and the element that was read. -/
def readAt (event : Int → α → ε) (xs : List α) (i : Int) : Logged ε α := do
  let x ← elementAt xs i
  record (event i x)
  return x

/-- `xs[i] = a`; the event tells the index and the element that was written. -/
def assignAndLog (event : Int → α → ε) (xs : List α) (i : Int) (a : α) : Logged ε (List α) := do
  let ys ← assignAt xs i a
  record (event i a)
  return ys

/-! ## Runs that returned -/

section Runs

variable {log log' : List ε}

theorem run_pure_eq_ok {a b : α} :
    (pure a : Logged ε α).run log = .ok (b, log') ↔ b = a ∧ log' = log := by
  rw [StateT.run_pure, Checked.pure_eq_ok, Except.ok.injEq, Prod.mk.injEq, eq_comm,
    eq_comm (a := log)]

theorem run_bind_eq_ok {x : Logged ε α} {f : α → Logged ε β} {b : β} :
    (x >>= f).run log = .ok (b, log') ↔
      ∃ a mid, x.run log = .ok (a, mid) ∧ (f a).run mid = .ok (b, log') := by
  rw [StateT.run_bind, Checked.bind_eq_ok]
  constructor
  · rintro ⟨⟨a, mid⟩, hx, hf⟩
    exact ⟨a, mid, hx, hf⟩
  · rintro ⟨a, mid, hx, hf⟩
    exact ⟨(a, mid), hx, hf⟩

/-- A part that does not log. -/
theorem run_lift_eq_ok {x : Checked α} {b : α} :
    (liftM x : Logged ε α).run log = .ok (b, log') ↔ x = .ok b ∧ log' = log := by
  cases x with
  | error e => exact ⟨nofun, fun h => nomatch h.1⟩
  | ok a =>
      change (pure a : Logged ε α).run log = _ ↔ _
      rw [run_pure_eq_ok, Except.ok.injEq, eq_comm]

theorem run_record_eq_ok {event : ε} {u : Unit} :
    (record event).run log = .ok (u, log') ↔ log' = log ++ [event] := by
  change Except.ok ((), log ++ [event]) = _ ↔ _
  rw [Except.ok.injEq, Prod.mk.injEq, eq_comm (a := log')]
  exact ⟨And.right, fun h => ⟨rfl, h⟩⟩

theorem run_readAt_eq_ok {event : Int → α → ε} {xs : List α} {i : Int} {x : α} :
    (readAt event xs i).run log = .ok (x, log') ↔
      elementAt xs i = .ok x ∧ log' = log ++ [event i x] := by
  simp only [readAt, run_bind_eq_ok, run_lift_eq_ok, run_record_eq_ok, run_pure_eq_ok]
  constructor
  · rintro ⟨y, _, ⟨hy, rfl⟩, _, _, rfl, rfl, rfl⟩
    exact ⟨hy, rfl⟩
  · rintro ⟨hx, rfl⟩
    exact ⟨x, log, ⟨hx, rfl⟩, (), _, rfl, rfl, rfl⟩

theorem run_assignAndLog_eq_ok {event : Int → α → ε} {xs ys : List α} {i : Int} {a : α} :
    (assignAndLog event xs i a).run log = .ok (ys, log') ↔
      assignAt xs i a = .ok ys ∧ log' = log ++ [event i a] := by
  simp only [assignAndLog, run_bind_eq_ok, run_lift_eq_ok, run_record_eq_ok, run_pure_eq_ok]
  constructor
  · rintro ⟨zs, _, ⟨hzs, rfl⟩, _, _, rfl, rfl, rfl⟩
    exact ⟨hzs, rfl⟩
  · rintro ⟨hys, rfl⟩
    exact ⟨ys, log, ⟨hys, rfl⟩, (), _, rfl, rfl, rfl⟩

end Runs

/-! ## Forgetting the log -/

/-- Without its log, and whatever the log was before, `x` is `y`. -/
def Erases (x : Logged ε α) (y : Checked α) : Prop :=
  ∀ log, (x.run log).map Prod.fst = y

section Erasure

variable {x : Logged ε α} {y : Checked α}

theorem Erases.eq_ok (h : Erases x y) {log log' : List ε} {a : α}
    (hx : x.run log = .ok (a, log')) : y = .ok a := by
  rw [← h log, hx]
  rfl

theorem Erases.run_ok (h : Erases x y) {a : α} (hy : y = .ok a) (log : List ε) :
    ∃ log', x.run log = .ok (a, log') := by
  have herase := h log
  rw [hy] at herase
  cases hrun : x.run log with
  | error e =>
      rw [hrun] at herase
      cases herase
  | ok p =>
      rw [hrun] at herase
      have hp : p.1 = a := Except.ok.inj herase
      exact ⟨p.2, by rw [← hp]⟩

theorem erases_pure (a : α) : Erases (pure a : Logged ε α) (pure a) := fun _ => rfl

theorem erases_lift (y : Checked α) : Erases (liftM y : Logged ε α) y := by
  intro log
  cases y with
  | error e => rfl
  | ok a => rfl

theorem Erases.bind {f : α → Logged ε β} {g : α → Checked β} (h : Erases x y)
    (hf : ∀ a, Erases (f a) (g a)) : Erases (x >>= f) (y >>= g) := by
  intro log
  rw [StateT.run_bind, ← h log]
  cases x.run log with
  | error e => rfl
  | ok p => exact hf p.1 p.2

theorem Erases.ite {c : Prop} [Decidable c] {x' : Logged ε α} {y' : Checked α} (h : Erases x y)
    (h' : Erases x' y') : Erases (if c then x else x') (if c then y else y') := by
  split
  · exact h
  · exact h'

/-- An event in front leaves the evaluation as it is. -/
theorem Erases.record_then (event : ε) (h : Erases x y) :
    Erases (record event >>= fun _ => x) y :=
  fun log => h (log ++ [event])

theorem erases_readAt (event : Int → α → ε) (xs : List α) (i : Int) :
    Erases (readAt event xs i) (elementAt xs i) := by
  have h : Erases (readAt event xs i) (elementAt xs i >>= pure) :=
    (erases_lift (elementAt xs i)).bind fun x => (erases_pure x).record_then (event i x)
  rwa [bind_pure] at h

theorem erases_assignAndLog (event : Int → α → ε) (xs : List α) (i : Int) (a : α) :
    Erases (assignAndLog event xs i a) (assignAt xs i a) := by
  have h : Erases (assignAndLog event xs i a) (assignAt xs i a >>= pure) :=
    (erases_lift (assignAt xs i a)).bind fun ys => (erases_pure ys).record_then (event i a)
  rwa [bind_pure] at h

end Erasure

end Logged

/-! ## Orderly logs -/

section Order

variable {ε : Type} {allowed : List ε → ε → Prop} {log log' : List ε} {event : ε}

/-- Every event of the log was allowed by what stood before it. -/
def Orderly (allowed : List ε → ε → Prop) (log : List ε) : Prop :=
  ∀ before event after, log = before ++ event :: after → allowed before event

theorem orderly_nil : Orderly allowed ([] : List ε) := by
  intro before event after h
  exact absurd h.symm (by simp)

theorem Orderly.snoc (h : Orderly allowed log) (hevent : allowed log event) :
    Orderly allowed (log ++ [event]) := by
  intro before e after heq
  -- The event in question is the new one, or stands in the old log.
  rcases List.eq_nil_or_concat after with rfl | ⟨rest, last, rfl⟩
  · rcases List.append_inj' heq rfl with ⟨rfl, hlast⟩
    obtain rfl : event = e := (List.cons.inj hlast).1
    exact hevent
  · have heq' : log ++ [event] = (before ++ e :: rest) ++ [last] := by
      rw [heq, List.concat_eq_append, List.append_assoc, List.cons_append]
    exact h before e rest (List.append_inj' heq' rfl).1

/-- The log grew by allowed events. -/
structure Extends (allowed : List ε → ε → Prop) (log log' : List ε) : Prop where
  kept : ∀ event ∈ log, event ∈ log'
  orderly : Orderly allowed log → Orderly allowed log'

theorem Extends.refl (allowed : List ε → ε → Prop) (log : List ε) : Extends allowed log log :=
  ⟨fun _ h => h, id⟩

theorem Extends.snoc (h : Extends allowed log log') (hevent : allowed log' event) :
    Extends allowed log (log' ++ [event]) :=
  ⟨fun e he => List.mem_append_left _ (h.kept e he), fun horder => (h.orderly horder).snoc hevent⟩

end Order

/-! ## Loops -/

/-- `while (cond) body`, for at most `fuel` rounds, where the body logs. -/
def loggedLoop {ε σ : Type} (cond : σ → Checked Bool) (body : σ → Logged ε σ) :
    Nat → σ → Logged ε (Option σ)
  | 0, _ => pure none
  | fuel + 1, s => do
      let go ← cond s
      if go then do
        let s ← body s
        loggedLoop cond body fuel s
      else
        return some s

section Loops

open Logged

variable {ε σ : Type} {cond : σ → Checked Bool}

theorem erases_loggedLoop {body : σ → Logged ε σ} {body' : σ → Checked σ}
    (hbody : ∀ s, Erases (body s) (body' s)) (fuel : Nat) (s : σ) :
    Erases (loggedLoop cond body fuel s) (whileLoop cond body' fuel s) := by
  induction fuel generalizing s with
  | zero => exact erases_pure none
  | succ fuel ih =>
      exact (erases_lift (cond s)).bind fun go => ((hbody s).bind ih).ite (erases_pure (some s))

/-- What every round of a loop keeps, of the variables and of the log, holds when it ends, with the
condition false. -/
theorem loggedLoop_keeps {body : σ → Logged ε σ} {Inv : σ → List ε → Prop}
    (hbody : ∀ s log s' log', Inv s log → cond s = .ok true →
      (body s).run log = .ok (s', log') → Inv s' log')
    {fuel : Nat} {s s' : σ} {log log' : List ε} (hs : Inv s log)
    (h : (loggedLoop cond body fuel s).run log = .ok (some s', log')) :
    Inv s' log' ∧ cond s' = .ok false := by
  induction fuel generalizing s log with
  | zero => cases (run_pure_eq_ok.1 h).1
  | succ fuel ih =>
      rcases run_bind_eq_ok.1 h with ⟨go, mid, hgo, hrest⟩
      rcases run_lift_eq_ok.1 hgo with ⟨hcond, rfl⟩
      cases go with
      | true =>
          -- One round keeps the invariant, and the induction hypothesis takes the rest.
          rcases run_bind_eq_ok.1 hrest with ⟨t, mid', hround, hloop⟩
          exact ih (hbody s _ t mid' hs hcond hround) hloop
      | false =>
          rcases run_pure_eq_ok.1 hrest with ⟨hend, rfl⟩
          obtain rfl : s' = s := Option.some.inj hend
          exact ⟨hs, hcond⟩

/-- Amortised cost: if every round pays for the events it logs out of a potential, the whole loop
logs no more than the potential it begins with. -/
theorem loggedLoop_cost {body : σ → Logged ε σ} {Inv : σ → Prop} {potential : σ → Nat}
    (hbody : ∀ s log s' log', Inv s → cond s = .ok true → (body s).run log = .ok (s', log') →
      Inv s' ∧ log'.length + potential s' ≤ log.length + potential s)
    {fuel : Nat} {s s' : σ} {log log' : List ε} (hs : Inv s)
    (h : (loggedLoop cond body fuel s).run log = .ok (some s', log')) :
    Inv s' ∧ log'.length + potential s' ≤ log.length + potential s := by
  have hkeep (t : σ) (mid : List ε) (t' : σ) (mid' : List ε)
      (ht : Inv t ∧ mid.length + potential t ≤ log.length + potential s)
      (hgo : cond t = .ok true) (hround : (body t).run mid = .ok (t', mid')) :
      Inv t' ∧ mid'.length + potential t' ≤ log.length + potential s := by
    rcases hbody t mid t' mid' ht.1 hgo hround with ⟨hinv, hpaid⟩
    exact ⟨hinv, Nat.le_trans hpaid ht.2⟩
  exact (loggedLoop_keeps hkeep ⟨hs, Nat.le_refl _⟩ h).1

end Loops

/-- A counted loop; the second number is the loop variable. -/
def forLoop {ε σ : Type} (body : Nat → σ → Logged ε σ) : Nat → Nat → σ → Logged ε σ
  | 0, _, s => pure s
  | n + 1, i, s => do
      let s ← body i s
      forLoop body n (i + 1) s

section CountedLoops

variable {ε σ : Type} {body : Nat → σ → Logged ε σ}

/-- A counted loop whose rounds return and keep an invariant returns with the invariant. -/
theorem forLoop_returns {Inv : Nat → σ → List ε → Prop} {stop : Nat}
    (hbody : ∀ i s log, i < stop → Inv i s log →
      ∃ s' log', (body i s).run log = .ok (s', log') ∧ Inv (i + 1) s' log')
    {n i : Nat} {s : σ} {log : List ε} (hn : i + n = stop) (hs : Inv i s log) :
    ∃ s' log', (forLoop body n i s).run log = .ok (s', log') ∧ Inv stop s' log' := by
  induction n generalizing i s log with
  | zero =>
      obtain rfl : i = stop := hn
      exact ⟨s, log, rfl, hs⟩
  | succ n ih =>
      rcases hbody i s log (by omega) hs with ⟨t, mid, hround, hinv⟩
      rcases ih (by omega) hinv with ⟨s', log', hrest, hstop⟩
      exact ⟨s', log', Logged.run_bind_eq_ok.2 ⟨t, mid, hround, hrest⟩, hstop⟩

end CountedLoops

end Cxx
