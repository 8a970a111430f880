import Mathlib.Data.Nat.Find
import Septem.Library.Checked

/-!
# Occurrence — where a pattern stands in a text

The specification side of substring search: `OccursAt` says that a pattern stands at an index,
`FirstOccurrence` that it stands there and nowhere before.  The lemmas say how both react to
text that is put behind or in front of the place in question.
-/

namespace Cxx

universe u

variable {α : Type u} {pat txt : List α} {i j : Nat}

/-- `pat` stands in `txt` at index `i`. -/
def OccursAt (pat txt : List α) (i : Nat) : Prop :=
  slice txt i pat.length = pat

/-- `pat` stands in `txt` at index `i`, and at no smaller index. -/
def FirstOccurrence (pat txt : List α) (i : Nat) : Prop :=
  OccursAt pat txt i ∧ ∀ j < i, ¬ OccursAt pat txt j

instance [DecidableEq α] (pat txt : List α) (i : Nat) : Decidable (OccursAt pat txt i) :=
  inferInstanceAs (Decidable (slice txt i pat.length = pat))

instance [DecidableEq α] (pat txt : List α) (i : Nat) : Decidable (FirstOccurrence pat txt i) :=
  inferInstanceAs (Decidable (OccursAt pat txt i ∧ ∀ j < i, ¬ OccursAt pat txt j))

theorem FirstOccurrence.unique (hi : FirstOccurrence pat txt i) (hj : FirstOccurrence pat txt j) :
    i = j := by
  rcases Nat.lt_trichotomy i j with hlt | heq | hgt
  · exact absurd hi.1 (hj.2 i hlt)
  · exact heq
  · exact absurd hj.1 (hi.2 j hgt)

/-- A pattern that occurs at all has a first occurrence. -/
theorem OccursAt.exists_first (h : OccursAt pat txt i) :
    ∃ j ≤ i, FirstOccurrence pat txt j := by
  classical
  have hex : ∃ j, OccursAt pat txt j := ⟨i, h⟩
  exact ⟨Nat.find hex, Nat.find_min' hex h, Nat.find_spec hex, fun j hj => Nat.find_min hex hj⟩

theorem firstOccurrence_or_none (pat txt : List α) :
    (∃ i, FirstOccurrence pat txt i) ∨ ∀ i, ¬ OccursAt pat txt i := by
  by_cases hocc : ∃ i, OccursAt pat txt i
  · rcases hocc with ⟨i, hi⟩
    rcases hi.exists_first with ⟨j, -, hj⟩
    exact Or.inl ⟨j, hj⟩
  · exact Or.inr fun i hi => hocc ⟨i, hi⟩

/-- Appended text does not change what stands in front of it. -/
theorem occursAt_append_iff (suf : List α) (h : i + pat.length ≤ txt.length) :
    OccursAt pat (txt ++ suf) i ↔ OccursAt pat txt i := by
  rw [OccursAt, slice_append_left suf h, OccursAt]

theorem OccursAt.fits (h : OccursAt pat txt i) (hpat : pat ≠ []) : i + pat.length ≤ txt.length := by
  have hlen := congrArg List.length h
  have hpos := List.length_pos_iff.2 hpat
  simp only [slice, List.length_take, List.length_drop] at hlen
  omega

/-- What stands in a text stands in it when more follows. -/
theorem OccursAt.append (suf : List α) (h : OccursAt pat txt i) (hpat : pat ≠ []) :
    OccursAt pat (txt ++ suf) i :=
  (occursAt_append_iff suf (h.fits hpat)).2 h

/-- Text in front moves what stands behind it. -/
theorem occursAt_prepend_iff (pre : List α) :
    OccursAt pat (pre ++ txt) (pre.length + i) ↔ OccursAt pat txt i := by
  rw [OccursAt, slice_append_right, OccursAt]

theorem FirstOccurrence.append (suf : List α) (h : FirstOccurrence pat txt i)
    (hfit : i + pat.length ≤ txt.length) : FirstOccurrence pat (txt ++ suf) i := by
  refine ⟨(occursAt_append_iff suf hfit).2 h.1, ?_⟩
  intro j hj hocc
  have hjfit : j + pat.length ≤ txt.length := by omega
  exact h.2 j hj ((occursAt_append_iff suf hjfit).1 hocc)

end Cxx
