import Mathlib.Data.List.Nodup

/-!
# LabelledDigraph — labelled simple digraphs

The mathematical object behind a graph container: finitely many vertices, named `0, 1, …` in the
order of their creation and carrying a value each, and at most one labelled arc from any vertex
to any other; arcs from a vertex to itself are there only if the graph has `loops`.

A `LabelledDigraph` carries these facts as fields, so every operation has to keep them.  Vertices
are named by integers, so that a name out of range can be asked for as well.
-/

universe u v

structure LabelledDigraph (V : Type u) (W : Type v) where
  loops : Bool
  /-- the values of the vertices, in order of creation -/
  values : List V
  /-- the arcs with their labels, in order of creation -/
  arcs : List ((Int × Int) × W)
  ends : ∀ a ∈ arcs, (0 ≤ a.1.1 ∧ a.1.1 < values.length) ∧ (0 ≤ a.1.2 ∧ a.1.2 < values.length)
  simple : (arcs.map Prod.fst).Nodup
  loopless : ∀ a ∈ arcs, a.1.1 ≠ a.1.2 ∨ loops = true

namespace LabelledDigraph

variable {V : Type u} {W : Type v} {A : LabelledDigraph V W} {s t : Int}

/-! ## Vertices and arcs -/

def IsVertex (A : LabelledDigraph V W) (v : Int) : Prop :=
  0 ≤ v ∧ v < A.values.length

/-- There is an arc from `s` to `t`. -/
def HasArc (A : LabelledDigraph V W) (s t : Int) : Prop :=
  (s, t) ∈ A.arcs.map Prod.fst

/-- An arc from `s` to `t` may be added. -/
def Admissible (A : LabelledDigraph V W) (s t : Int) : Prop :=
  (A.IsVertex s ∧ A.IsVertex t) ∧ (s ≠ t ∨ A.loops = true) ∧ ¬ A.HasArc s t

instance (A : LabelledDigraph V W) (v : Int) : Decidable (A.IsVertex v) :=
  inferInstanceAs (Decidable (_ ∧ _))

instance (A : LabelledDigraph V W) (s t : Int) : Decidable (A.HasArc s t) :=
  inferInstanceAs (Decidable (_ ∈ _))

instance (A : LabelledDigraph V W) (s t : Int) : Decidable (A.Admissible s t) :=
  inferInstanceAs (Decidable (_ ∧ _))

theorem hasArc_iff : A.HasArc s t ↔ ∃ w, ((s, t), w) ∈ A.arcs := by
  constructor
  · intro h
    rcases List.mem_map.1 h with ⟨⟨st, w⟩, hmem, rfl⟩
    exact ⟨w, hmem⟩
  · rintro ⟨w, hmem⟩
    exact List.mem_map.2 ⟨_, hmem, rfl⟩

/-! ## Operations -/

/-- The graph without vertices. -/
def empty (loops : Bool) : LabelledDigraph V W where
  loops := loops
  values := []
  arcs := []
  ends := nofun
  simple := List.nodup_nil
  loopless := nofun

/-- Add a vertex; it gets the next name. -/
def addVertex (A : LabelledDigraph V W) (value : V) : LabelledDigraph V W where
  loops := A.loops
  values := A.values ++ [value]
  arcs := A.arcs
  ends a ha := by
    have h := A.ends a ha
    simp only [List.length_append, List.length_singleton]
    omega
  simple := A.simple
  loopless := A.loopless

/-- Add an arc if that is admissible; otherwise do nothing. -/
def addArc (A : LabelledDigraph V W) (s t : Int) (w : W) : LabelledDigraph V W :=
  if h : A.Admissible s t then
    { loops := A.loops
      values := A.values
      arcs := A.arcs ++ [((s, t), w)]
      ends := by
        intro a ha
        rcases List.mem_append.1 ha with hold | hnew
        · exact A.ends a hold
        · rw [List.mem_singleton.1 hnew]
          exact h.1
      simple := by
        rw [List.map_append]
        exact A.simple.append (List.nodup_singleton _)
          (List.disjoint_singleton.2 h.2.2)
      loopless := by
        intro a ha
        rcases List.mem_append.1 ha with hold | hnew
        · exact A.loopless a hold
        · rw [List.mem_singleton.1 hnew]
          exact h.2.1 }
  else
    A

def clear (A : LabelledDigraph V W) : LabelledDigraph V W :=
  empty A.loops

@[simp] theorem addArc_values (w : W) : (A.addArc s t w).values = A.values := by
  unfold addArc
  split <;> rfl

@[simp] theorem addArc_loops (w : W) : (A.addArc s t w).loops = A.loops := by
  unfold addArc
  split <;> rfl

theorem addArc_arcs (h : A.Admissible s t) (w : W) :
    (A.addArc s t w).arcs = A.arcs ++ [((s, t), w)] := by
  rw [addArc, dif_pos h]

theorem addArc_refused (h : ¬ A.Admissible s t) (w : W) : A.addArc s t w = A := by
  rw [addArc, dif_neg h]

/-! ## Construction sequences -/

inductive Op (V : Type u) (W : Type v)
  | addVertex (value : V)
  | addArc (s t : Int) (w : W)
  | clear

def apply (A : LabelledDigraph V W) : Op V W → LabelledDigraph V W
  | .addVertex value => A.addVertex value
  | .addArc s t w => A.addArc s t w
  | .clear => A.clear

/-- The graph a sequence of operations builds. -/
def build (loops : Bool) (ops : List (Op V W)) : LabelledDigraph V W :=
  ops.foldl apply (empty loops)

theorem foldl_addVertex (values : List V) (A : LabelledDigraph V W) :
    (values.foldl addVertex A).values = A.values ++ values ∧
      (values.foldl addVertex A).arcs = A.arcs := by
  induction values generalizing A with
  | nil => simp
  | cons value rest ih =>
      have h := ih (A.addVertex value)
      refine ⟨?_, h.2⟩
      rw [List.foldl_cons, h.1]
      simp [addVertex]

/-- New arcs between different vertices are all accepted, in order. -/
theorem foldl_addArc (arcs : List ((Int × Int) × W)) (A : LabelledDigraph V W)
    (hends : ∀ a ∈ arcs, A.IsVertex a.1.1 ∧ A.IsVertex a.1.2)
    (hloop : ∀ a ∈ arcs, a.1.1 ≠ a.1.2) (hnew : ((A.arcs ++ arcs).map Prod.fst).Nodup) :
    (arcs.foldl (fun A a => A.addArc a.1.1 a.1.2 a.2) A).arcs = A.arcs ++ arcs := by
  induction arcs generalizing A with
  | nil => simp
  | cons a rest ih =>
      have hadm : A.Admissible a.1.1 a.1.2 := by
        refine ⟨hends a List.mem_cons_self, Or.inl (hloop a List.mem_cons_self), ?_⟩
        -- `a` stands behind the arcs of `A` in a list without repetitions.
        rw [List.map_append, List.map_cons] at hnew
        intro hold
        exact (List.nodup_append.1 hnew).2.2 _ hold _ List.mem_cons_self rfl
      have harcs : (A.addArc a.1.1 a.1.2 a.2).arcs = A.arcs ++ [a] := addArc_arcs hadm a.2
      rw [List.foldl_cons, ih]
      · rw [harcs, List.append_assoc, List.singleton_append]
      · intro b hb
        have h := hends b (List.mem_cons_of_mem a hb)
        simpa only [IsVertex, addArc_values] using h
      · intro b hb
        exact hloop b (List.mem_cons_of_mem a hb)
      · rw [harcs, List.append_assoc, List.singleton_append]
        exact hnew

end LabelledDigraph
