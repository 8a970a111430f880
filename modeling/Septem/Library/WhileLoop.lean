import Septem.Library.Checked

/-!
# WhileLoop — `while` loops that may fault or go on forever

A loop is given by its condition and its body, both of which may fault, and is run with a bound on
the number of rounds; `none` says that the bound was too small.  `whileLoop_returns` is the rule for
total correctness: an invariant that the body keeps, and a measure that every round decreases.
-/

namespace Cxx

universe u

variable {σ : Type u}

/-- `while (cond) body`, for at most `fuel` rounds. -/
def whileLoop {σ : Type} (cond : σ → Checked Bool) (body : σ → Checked σ) :
    Nat → σ → Checked (Option σ)
  | 0, _ => pure none
  | fuel + 1, s => do
      let go ← cond s
      if go then do
        let s ← body s
        whileLoop cond body fuel s
      else
        return some s

section Rules

variable {σ : Type} {cond : σ → Checked Bool} {body : σ → Checked σ} {Inv : σ → Prop}
  {measure : σ → Nat}

/-- A loop whose rounds keep an invariant and decrease a measure ends, with the invariant and the
condition false. -/
theorem whileLoop_returns
    (hcond : ∀ s, Inv s → ∃ go, cond s = .ok go)
    (hbody : ∀ s, Inv s → cond s = .ok true →
      ∃ s', body s = .ok s' ∧ Inv s' ∧ measure s' < measure s)
    {fuel : Nat} {s : σ} (hs : Inv s) (hfuel : measure s < fuel) :
    ∃ s', whileLoop cond body fuel s = .ok (some s') ∧ Inv s' ∧ cond s' = .ok false := by
  induction fuel generalizing s with
  | zero => exact absurd hfuel (Nat.not_lt_zero _)
  | succ fuel ih =>
      rcases hcond s hs with ⟨go, hgo⟩
      cases go with
      | false =>
          refine ⟨s, ?_, hs, hgo⟩
          simp only [whileLoop, hgo, Checked.ok_bind, Bool.false_eq_true, if_false,
            Checked.pure_eq_ok]
      | true =>
          -- The rounds left are one fewer, and so is what the measure allows.
          rcases hbody s hs hgo with ⟨t, ht, hinv, hlt⟩
          rcases ih hinv (by omega) with ⟨s', hrest, hend⟩
          refine ⟨s', ?_, hend⟩
          simp only [whileLoop, hgo, ht, Checked.ok_bind, if_true, hrest]

end Rules

end Cxx
