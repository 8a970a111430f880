import Septem.Library.Checked

/-!
# Run — runs of a component that may fault

A component is a step function `step : σ → ο → Checked σ` over its operations; a run is a list of
operations (`run`).  `Along P s ops` says that the property `P` of a state and the operation about
to be executed in it holds at every step of the run from `s`, and `Reaches P s s'` that such a run
leads from `s` to `s'`.

These rules are used over and over:

* `run_simulates`: if every step that satisfies `P` returns and follows a step of an abstract
  component, a run along which `P` holds returns and follows a run of it;
* `run_refines`: the same when the condition is one on the abstract component;
* `run_keeps`: the same for an invariant in place of the abstract component;
* `rank_of_run`: progress by a rank that helpful operations lower;
* `along_iff`: if under an invariant two step properties agree, they agree along every run
  (`along_iff_of_step` for an invariant as in `run_keeps`).
-/

namespace Cxx

universe u v w

variable {σ : Type u} {ο : Type v} {step : σ → ο → Checked σ}

/-- Execute the operations one after the other. -/
def run (step : σ → ο → Checked σ) : σ → List ο → Checked σ
  | s, [] => pure s
  | s, op :: ops => do
      let s ← step s op
      run step s ops

/-- `P` holds at every step of the run. -/
def Along (step : σ → ο → Checked σ) (P : σ → ο → Prop) : σ → List ο → Prop
  | _, [] => True
  | s, op :: ops => P s op ∧ ∀ s', step s op = .ok s' → Along step P s' ops

/-- A run can be checked by running it. -/
instance decidableAlong (P : σ → ο → Prop) [∀ s op, Decidable (P s op)] :
    (s : σ) → (ops : List ο) → Decidable (Along step P s ops)
  | _, [] => inferInstanceAs (Decidable True)
  | s, op :: ops =>
      match hstep : step s op with
      | .ok s' =>
          have := decidableAlong P s' ops
          decidable_of_iff (P s op ∧ Along step P s' ops) (by simp [Along, hstep])
      | .error _ => decidable_of_iff (P s op) (by simp [Along, hstep])

/-- A property of the operations alone holds along a run when it holds of each of them. -/
theorem along_of_forall {P : ο → Prop} (s : σ) {ops : List ο} (h : ∀ op ∈ ops, P op) :
    Along step (fun _ op => P op) s ops := by
  induction ops generalizing s with
  | nil => exact trivial
  | cons op ops ih =>
      refine ⟨h op List.mem_cons_self, ?_⟩
      intro s' _
      exact ih s' fun later hlater => h later (List.mem_cons_of_mem op hlater)

/-! ## Runs one after the other -/

theorem run_append (s : σ) (ops ops' : List ο) :
    run step s (ops ++ ops') = run step s ops >>= fun s' => run step s' ops' := by
  induction ops generalizing s with
  | nil => rfl
  | cons op ops ih =>
      cases hop : step s op with
      | error e => simp [run, hop]
      | ok t => simp [run, hop, ih t]

theorem Along.append {P : σ → ο → Prop} {s s' : σ} {ops ops' : List ο}
    (h : Along step P s ops) (hrun : run step s ops = .ok s') (h' : Along step P s' ops') :
    Along step P s (ops ++ ops') := by
  induction ops generalizing s with
  | nil =>
      cases hrun
      exact h'
  | cons op ops ih =>
      refine ⟨h.1, ?_⟩
      intro t ht
      rcases Checked.bind_eq_ok.1 hrun with ⟨t', ht', hrest⟩
      rw [ht] at ht'
      cases ht'
      exact ih (h.2 t ht) hrest

/-- Some run along which `P` holds leads from `s` to `s'`. -/
def Reaches (step : σ → ο → Checked σ) (P : σ → ο → Prop) (s s' : σ) : Prop :=
  ∃ ops, Along step P s ops ∧ run step s ops = .ok s'

theorem Reaches.of_step {P : σ → ο → Prop} {s s' : σ} {op : ο} (hP : P s op)
    (hstep : step s op = .ok s') : Reaches step P s s' :=
  ⟨[op], ⟨hP, fun _ _ => trivial⟩, by rw [run, hstep, Checked.ok_bind, run, Checked.pure_eq_ok]⟩

theorem Reaches.trans {P : σ → ο → Prop} {s t u : σ} (h : Reaches step P s t)
    (h' : Reaches step P t u) : Reaches step P s u := by
  rcases h with ⟨ops, halong, hrun⟩
  rcases h' with ⟨ops', halong', hrun'⟩
  refine ⟨ops ++ ops', halong.append hrun halong', ?_⟩
  rw [run_append, hrun, Checked.ok_bind, hrun']

/-! ## Invariants -/

/-- Simulation: if every step that satisfies `P` returns and keeps the relation to an abstract
component, a run along which `P` holds returns and ends in the relation. -/
theorem run_simulates {τ : Type w} {next : τ → ο → τ} {R : σ → τ → Prop} {P : σ → ο → Prop}
    (hstep : ∀ s a op, R s a → P s op → ∃ s', step s op = .ok s' ∧ R s' (next a op))
    {s : σ} {a : τ} (h : R s a) {ops : List ο} (hP : Along step P s ops) :
    ∃ s', run step s ops = .ok s' ∧ R s' (ops.foldl next a) := by
  induction ops generalizing s a with
  | nil => exact ⟨s, rfl, h⟩
  | cons op ops ih =>
      rcases hstep s a op h hP.1 with ⟨t, ht, hrel⟩
      rcases ih hrel (hP.2 t ht) with ⟨s', hrun, hend⟩
      exact ⟨s', by rw [run, ht, Checked.ok_bind, hrun], hend⟩

/-- Simulation, with the condition on the abstract component: if a step returns and keeps the relation
whenever the abstract state behind it is good, a run returns whose abstract end is good. -/
theorem run_refines {τ : Type w} {next : τ → ο → τ} {R : σ → τ → Prop} {Good : τ → Prop}
    (hstep : ∀ s a op, R s a → Good (next a op) → ∃ s', step s op = .ok s' ∧ R s' (next a op))
    (hback : ∀ a op, Good (next a op) → Good a)
    {s : σ} {a : τ} (h : R s a) {ops : List ο} (hgood : Good (ops.foldl next a)) :
    ∃ s', run step s ops = .ok s' ∧ R s' (ops.foldl next a) := by
  have hback' (ops : List ο) (a : τ) (hend : Good (ops.foldl next a)) : Good a := by
    induction ops generalizing a with
    | nil => exact hend
    | cons op ops ih => exact hback a op (ih (next a op) hend)
  induction ops generalizing s a with
  | nil => exact ⟨s, rfl, h⟩
  | cons op ops ih =>
      rcases hstep s a op h (hback' ops (next a op) hgood) with ⟨t, ht, hrel⟩
      rcases ih hrel hgood with ⟨s', hrun, hend⟩
      exact ⟨s', by rw [run, ht, Checked.ok_bind, hrun], hend⟩

/-- If every step that satisfies `P` returns and keeps the invariant, so does every run. -/
theorem run_keeps {Inv : σ → Prop} {P : σ → ο → Prop}
    (hstep : ∀ s op, Inv s → P s op → ∃ s', step s op = .ok s' ∧ Inv s')
    {s : σ} (hs : Inv s) {ops : List ο} (hP : Along step P s ops) :
    ∃ s', run step s ops = .ok s' ∧ Inv s' := by
  -- An invariant is a simulation by a component with a single state.
  have hsim := @run_simulates σ ο step Unit (fun _ _ => ()) (fun t _ => Inv t) P
    (fun t _ op => hstep t op)
  exact hsim (a := ()) hs hP

/-- A property of the state after each step holds in the end. -/
theorem inv_of_along {Inv : σ → Prop} {P : σ → ο → Prop}
    (hafter : ∀ s op s', P s op → step s op = .ok s' → Inv s')
    {s s' : σ} (hs : Inv s) {ops : List ο} (hP : Along step P s ops)
    (hrun : run step s ops = .ok s') : Inv s' := by
  induction ops generalizing s with
  | nil =>
      cases hrun
      exact hs
  | cons op ops ih =>
      rcases Checked.bind_eq_ok.1 hrun with ⟨t, ht, hrest⟩
      exact ih (hafter s op t hP.1 ht) (hP.2 t ht) hrest

/-- An invariant that the allowed operations keep holds after every run of them. -/
theorem inv_of_run {Inv : σ → Prop} {P : ο → Prop}
    (hkeep : ∀ s op s', Inv s → P op → step s op = .ok s' → Inv s')
    {s s' : σ} (hs : Inv s) {ops : List ο} (hP : ∀ op ∈ ops, P op)
    (hrun : run step s ops = .ok s') : Inv s' := by
  induction ops generalizing s with
  | nil =>
      cases hrun
      exact hs
  | cons op ops ih =>
      rcases Checked.bind_eq_ok.1 hrun with ⟨t, ht, hrest⟩
      refine ih (hkeep s op t hs (hP op List.mem_cons_self) ht) ?_ hrest
      exact fun later hlater => hP later (List.mem_cons_of_mem op hlater)

/-- Progress: if a helpful operation lowers the rank and no other raises it, a run lowers it by the
number of its helpful operations. -/
theorem rank_of_run {Inv : σ → Prop} {P : ο → Prop} {rank : σ → Nat} {helpful : ο → Bool}
    (hstep : ∀ s op s', Inv s → P op → step s op = .ok s' →
      Inv s' ∧ rank s' ≤ rank s - (helpful op).toNat)
    {s s' : σ} (hs : Inv s) {ops : List ο} (hP : ∀ op ∈ ops, P op)
    (hrun : run step s ops = .ok s') : Inv s' ∧ rank s' ≤ rank s - ops.countP helpful := by
  induction ops generalizing s with
  | nil =>
      cases hrun
      exact ⟨hs, Nat.le_refl _⟩
  | cons op ops ih =>
      rcases Checked.bind_eq_ok.1 hrun with ⟨t, ht, hrest⟩
      rcases hstep s op t hs (hP op List.mem_cons_self) ht with ⟨hinv, hfirst⟩
      rcases ih hinv (fun later hlater => hP later (List.mem_cons_of_mem op hlater)) hrest with
        ⟨hend, hlast⟩
      have hcount : (op :: ops).countP helpful = ops.countP helpful + (helpful op).toNat := by
        rw [List.countP_cons]
        cases helpful op <;> rfl
      refine ⟨hend, ?_⟩
      calc
        rank s' ≤ rank t - ops.countP helpful := hlast
        _ ≤ rank s - (helpful op).toNat - ops.countP helpful := Nat.sub_le_sub_right hfirst _
        _ = rank s - (op :: ops).countP helpful := by rw [hcount, Nat.add_comm, Nat.sub_add_eq]

/-- Step properties that agree in every state of the invariant agree along every run. -/
theorem along_iff {P Q : σ → ο → Prop} {Inv : σ → Prop}
    (hiff : ∀ s op, Inv s → (P s op ↔ Q s op))
    (hkeep : ∀ s op s', Inv s → P s op → step s op = .ok s' → Inv s')
    {s : σ} (hs : Inv s) (ops : List ο) : Along step P s ops ↔ Along step Q s ops := by
  induction ops generalizing s with
  | nil => exact Iff.rfl
  | cons op ops ih =>
      constructor
      · rintro ⟨hP, hrest⟩
        refine ⟨(hiff s op hs).1 hP, ?_⟩
        intro s' hs'
        exact (ih (hkeep s op s' hs hP hs')).1 (hrest s' hs')
      · rintro ⟨hQ, hrest⟩
        -- The invariant is kept by `P`-steps, so `P` has to be known before going on.
        have hP : P s op := (hiff s op hs).2 hQ
        refine ⟨hP, ?_⟩
        intro s' hs'
        exact (ih (hkeep s op s' hs hP hs')).2 (hrest s' hs')

/-- The same when the steps of the second property return and keep the invariant. -/
theorem along_iff_of_step {P Q : σ → ο → Prop} {Inv : σ → Prop}
    (hiff : ∀ s op, Inv s → (P s op ↔ Q s op))
    (hstep : ∀ s op, Inv s → Q s op → ∃ s', step s op = .ok s' ∧ Inv s')
    {s : σ} (hs : Inv s) (ops : List ο) : Along step P s ops ↔ Along step Q s ops := by
  refine along_iff hiff ?_ hs ops
  intro t op t' ht hP hop
  rcases hstep t op ht ((hiff t op ht).1 hP) with ⟨u, hu, hinv⟩
  rw [hop] at hu
  cases hu
  exact hinv

end Cxx
