import Septem.Core.GraphSerialize

/-!
# BackwardGraph — `TBackwardGraph` of `Core/Templates/BackwardGraph.hpp`

The graph that also keeps, for each vertex, the set of the vertices with an edge to it.  The
overrides call the function of the base class and then update `ParentEdges`; `Transposed` says
that the second table is the transpose of the first, and holds in every reachable state.
-/

namespace Septem

open Cxx

structure TBackwardGraph (VT ET : Type) extends TDirectedGraph VT ET where
  parentEdges : List EdgeAdjustList := []

namespace TBackwardGraph

variable {VT ET : Type}

/-- Both overloads of `AddVertex`. -/
def addVertex (this : TBackwardGraph VT ET) (inVT : VT) : TBackwardGraph VT ET :=
  -- `VertexCount()` before the new vertex is appended, that is its index.
  let eal := EdgeAdjustList.new this.vertexCount
  { toTDirectedGraph := this.toTDirectedGraph.addVertex inVT
    parentEdges := this.parentEdges ++ [eal] }

/-- `AddEdge(InEdge)`; `ParentEdges[InEdge.EndId]` is an unchecked access. -/
def addEdge (this : TBackwardGraph VT ET) (inEdge : TEdge ET) :
    Checked (Bool × TBackwardGraph VT ET) :=
  match this.toTDirectedGraph.addEdge inEdge with
  | (true, base) => do
      let eal ← elementAt this.parentEdges inEdge.endId.toInt
      let eal := { eal with adjustVertexes := eal.adjustVertexes.insert inEdge.startId }
      return (true, { toTDirectedGraph := base
                      parentEdges := this.parentEdges.set inEdge.endId.toInt.toNat eal })
  | (false, base) => pure (false, { this with toTDirectedGraph := base })

def reset (this : TBackwardGraph VT ET) : TBackwardGraph VT ET :=
  { toTDirectedGraph := this.toTDirectedGraph.reset, parentEdges := [] }

/-! ## What the operations do -/

theorem addEdge_refused {this : TBackwardGraph VT ET} {edge : TEdge ET}
    (h : ¬ this.Accepts edge) : this.addEdge edge = .ok (false, this) := by
  simp only [addEdge, TDirectedGraph.addEdge_refused h]
  rfl

/-- An accepted edge enters both tables, if the second one has an entry for its end. -/
theorem addEdge_accepted {this : TBackwardGraph VT ET} {edge : TEdge ET} (h : this.Accepts edge) :
    this.addEdge edge = (elementAt this.parentEdges edge.endId.toInt).map fun eal =>
      (true, { toTDirectedGraph := (this.toTDirectedGraph.addEdge edge).2
               parentEdges := this.parentEdges.set edge.endId.toInt.toNat
                { eal with adjustVertexes := eal.adjustVertexes.insert edge.startId } }) := by
  have hbase := TDirectedGraph.addEdge_accepted h
  cases heal : elementAt this.parentEdges edge.endId.toInt with
  | error fault => simp only [addEdge, hbase, heal, Checked.error_bind, Except.map]
  | ok eal => simp only [addEdge, hbase, heal, Checked.ok_bind, Checked.pure_eq_ok, Except.map]

/-- All that an `AddEdge` which returns can have done. -/
theorem addEdge_cases {this this' : TBackwardGraph VT ET} {edge : TEdge ET} {ret : Bool}
    (h : this.addEdge edge = .ok (ret, this')) :
    (ret = false ∧ ¬ this.Accepts edge ∧ this' = this) ∨
    (ret = true ∧ this.Accepts edge ∧ ∃ (t : Nat) (old : EdgeAdjustList),
      edge.endId.toInt = t ∧ this.parentEdges[t]? = some old ∧
      this' = { toTDirectedGraph := (this.toTDirectedGraph.addEdge edge).2
                parentEdges := this.parentEdges.set t
                  { old with adjustVertexes := old.adjustVertexes.insert edge.startId } }) := by
  by_cases hacc : this.Accepts edge
  · right
    have hend := TDirectedGraph.isPosition_of_isValidVertexIndex hacc.endId
    rcases Int.eq_ofNat_of_zero_le hend.1 with ⟨t, ht⟩
    rw [addEdge_accepted hacc, ht] at h
    cases hold : elementAt this.parentEdges (t : Int) with
    | error fault => simp [hold, Except.map] at h
    | ok old =>
        simp only [hold, Except.map, Except.ok.injEq, Prod.mk.injEq] at h
        exact ⟨h.1.symm, hacc, t, old, ht, elementAt_eq_ok.1 hold, h.2.symm⟩
  · left
    rw [addEdge_refused hacc] at h
    cases h
    exact ⟨rfl, hacc, rfl⟩

/-- Seen as a `TDirectedGraph`, the object does what a `TDirectedGraph` does. -/
theorem addEdge_base {this this' : TBackwardGraph VT ET} {edge : TEdge ET} {ret : Bool}
    (h : this.addEdge edge = .ok (ret, this')) :
    (ret, this'.toTDirectedGraph) = this.toTDirectedGraph.addEdge edge := by
  rcases addEdge_cases h with ⟨rfl, hacc, rfl⟩ | ⟨rfl, hacc, t, old, -, -, rfl⟩
  · exact (TDirectedGraph.addEdge_refused hacc).symm
  · rw [TDirectedGraph.addEdge_accepted hacc]

/-- The only fault of `AddEdge` is an access outside `ParentEdges`. -/
theorem addEdge_fault {this : TBackwardGraph VT ET} {edge : TEdge ET} {fault : Fault}
    (h : this.addEdge edge = .error fault) : fault = .outOfBounds := by
  by_cases hacc : this.Accepts edge
  · rw [addEdge_accepted hacc] at h
    cases heal : elementAt this.parentEdges edge.endId.toInt with
    | error fault' =>
        simp only [heal, Except.map, Except.error.injEq] at h
        rw [← h]
        exact elementAt_fault heal
    | ok eal => simp [heal, Except.map] at h
  · rw [addEdge_refused hacc] at h
    cases h

theorem addEdge_length {this this' : TBackwardGraph VT ET} {edge : TEdge ET} {ret : Bool}
    (h : this.addEdge edge = .ok (ret, this')) :
    this'.parentEdges.length = this.parentEdges.length := by
  rcases addEdge_cases h with ⟨-, -, rfl⟩ | ⟨-, -, t, old, -, -, rfl⟩
  · rfl
  · exact List.length_set

/-- With a list for each vertex, `AddEdge` never leaves `ParentEdges`. -/
theorem addEdge_ok {this : TBackwardGraph VT ET}
    (hlen : this.parentEdges.length = this.vertexArray.length) (edge : TEdge ET) :
    ∃ r, this.addEdge edge = .ok r := by
  by_cases hacc : this.Accepts edge
  · have hend := TDirectedGraph.isPosition_of_isValidVertexIndex hacc.endId
    rw [TDirectedGraph.IsPosition, ← hlen] at hend
    rcases elementAt_ok hend.1 hend.2 with ⟨eal, heal⟩
    rw [addEdge_accepted hacc, heal]
    exact ⟨_, rfl⟩
  · exact ⟨_, addEdge_refused hacc⟩

/-- The virtual functions of `TBackwardGraph`. -/
def graphClass : GraphClass (TBackwardGraph VT ET) VT ET where
  base this := this.toTDirectedGraph
  withBase this b := { this with toTDirectedGraph := b }
  addVertex this inVT := pure (this.addVertex inVT)
  addEdge := addEdge
  reset := reset
  base_withBase _ _ := rfl
  withBase_withBase _ _ _ := rfl
  base_addVertex _ _ _ h := by
    cases h
    rfl
  base_addEdge _ _ _ _ h := addEdge_base h
  base_reset _ := rfl

/-! ## The transpose -/

/-- The states reached by `AddVertex`, `AddEdge` and `Reset`. -/
inductive Reachable (bDirectSelf : Bool) : TBackwardGraph VT ET → Prop where
  | new : Reachable bDirectSelf { bDirectSelf := bDirectSelf }
  | addVertex {this : TBackwardGraph VT ET} (inVT : VT) :
      Reachable bDirectSelf this → Reachable bDirectSelf (this.addVertex inVT)
  | addEdge {this this' : TBackwardGraph VT ET} {inEdge : TEdge ET} {ret : Bool} :
      Reachable bDirectSelf this → this.addEdge inEdge = .ok (ret, this') →
      Reachable bDirectSelf this'
  | reset {this : TBackwardGraph VT ET} :
      Reachable bDirectSelf this → Reachable bDirectSelf this.reset

/-- The edge from `u` to the vertex at position `v` is in the edge map. -/
def HasEdge (this : TDirectedGraph VT ET) (u : Int32) (v : Nat) : Prop :=
  ∃ edge : TEdge ET, this.edgeMap[edgeKey edge.startId edge.endId]? = some edge ∧
    edge.startId = u ∧ edge.endId.toInt = v

/-- The list of each vertex holds the vertices with an edge to it. -/
structure Transposed (this : TBackwardGraph VT ET) : Prop where
  length_eq : this.parentEdges.length = this.vertexArray.length
  mem_iff : ∀ (v : Nat) (eal : EdgeAdjustList), this.parentEdges[v]? = some eal →
    ∀ u : Int32, u ∈ eal.adjustVertexes ↔ HasEdge this.toTDirectedGraph u v
  keyed : this.Keyed

theorem new_transposed (bDirectSelf : Bool) :
    ({ bDirectSelf := bDirectSelf } : TBackwardGraph VT ET).Transposed :=
  ⟨rfl, fun _ _ h => by simp at h, TDirectedGraph.new_keyed bDirectSelf⟩

theorem addVertex_transposed {this : TBackwardGraph VT ET} (h : this.Transposed) (inVT : VT) :
    (this.addVertex inVT).Transposed := by
  refine ⟨?_, ?_, TDirectedGraph.addVertex_keyed h.keyed inVT⟩
  · simp only [addVertex, TDirectedGraph.addVertex, List.length_append, h.length_eq,
      List.length_singleton]
  · intro v eal heal u
    simp only [addVertex] at heal
    rcases Nat.lt_or_ge v this.parentEdges.length with hlt | hge
    · rw [List.getElem?_append_left hlt] at heal
      exact h.mem_iff v eal heal u
    · -- The new vertex has no parents, and no stored edge ends at its position.
      rw [List.getElem?_append_right hge, List.getElem?_singleton] at heal
      split at heal
      · rename_i hv
        cases heal
        refine iff_of_false (by simp [EdgeAdjustList.new]) ?_
        rintro ⟨edge, hget, -, hend⟩
        have hpos := (h.keyed.ends _ _ hget).2
        rw [TDirectedGraph.IsPosition, ← h.length_eq] at hpos
        omega
      · cases heal

theorem reset_transposed (this : TBackwardGraph VT ET) : this.reset.Transposed :=
  new_transposed this.bDirectSelf

/-- Inserting an edge under its own key adds this edge to the edges to its end. -/
theorem hasEdge_insert {this : TBackwardGraph VT ET} {edge : TEdge ET} (hacc : this.Accepts edge)
    (u : Int32) (v : Nat) :
    HasEdge (this.toTDirectedGraph.addEdge edge).2 u v ↔
      (edge.startId = u ∧ edge.endId.toInt = v) ∨ HasEdge this.toTDirectedGraph u v := by
  rw [TDirectedGraph.addEdge_accepted hacc]
  constructor
  · rintro ⟨e, hget, hu, hv⟩
    rw [Std.ExtTreeMap.getElem?_insert] at hget
    split at hget
    · cases hget
      exact Or.inl ⟨hu, hv⟩
    · exact Or.inr ⟨e, hget, hu, hv⟩
  · rintro (⟨hu, hv⟩ | ⟨e, hget, hu, hv⟩)
    · refine ⟨edge, ?_, hu, hv⟩
      rw [Std.ExtTreeMap.getElem?_insert, if_pos Std.ReflCmp.compare_self]
    · refine ⟨e, ?_, hu, hv⟩
      rw [Std.ExtTreeMap.getElem?_insert, if_neg, hget]
      intro hcmp
      -- An old edge under the new key would have made `AddEdge` refuse.
      have hkey := Std.LawfulEqCmp.eq_of_compare hcmp
      rw [← hkey] at hget
      have hvalid := (this.isValidEdge_iff edge.startId edge.endId).2 ⟨e, hget⟩
      rw [hacc.new] at hvalid
      cases hvalid

theorem addEdge_transposed {this this' : TBackwardGraph VT ET} (h : this.Transposed)
    {edge : TEdge ET} {ret : Bool} (hadd : this.addEdge edge = .ok (ret, this')) :
    this'.Transposed := by
  have hlen := addEdge_length hadd
  rcases addEdge_cases hadd with ⟨-, -, rfl⟩ | ⟨-, hacc, t, old, ht, hold, rfl⟩
  · exact h
  · refine ⟨?_, ?_, TDirectedGraph.addEdge_keyed h.keyed edge⟩
    · rw [hlen, h.length_eq, TDirectedGraph.addEdge_vertexArray]
    · intro v eal hget u
      rw [hasEdge_insert hacc, ht]
      -- Only the list of the end `t` has changed, by the start of the new edge.
      by_cases hv : v = t
      · subst hv
        rw [List.getElem?_set_self (List.getElem?_eq_some_iff.1 hold).1] at hget
        cases hget
        rw [Std.ExtTreeSet.mem_insert, h.mem_iff v old hold u]
        simp
      · rw [List.getElem?_set_ne (fun heq => hv heq.symm)] at hget
        rw [h.mem_iff v eal hget u, or_iff_right]
        intro hnew
        exact hv (Int.ofNat_inj.1 hnew.2).symm

theorem Reachable.transposed {bDirectSelf : Bool} {this : TBackwardGraph VT ET}
    (h : Reachable bDirectSelf this) : this.Transposed := by
  induction h with
  | new => exact new_transposed bDirectSelf
  | addVertex inVT _ ih => exact addVertex_transposed ih inVT
  | addEdge _ hadd ih => exact addEdge_transposed ih hadd
  | reset _ _ => exact reset_transposed _

/-- In every reachable state the parent lists are the transpose of the edge map, `AddEdge` stays
inside them, and a refused edge changes nothing. -/
theorem parents_transpose {bDirectSelf : Bool} {this : TBackwardGraph VT ET}
    (h : Reachable bDirectSelf this) :
    this.parentEdges.length = this.vertexArray.length ∧
    (∀ (v : Nat) (eal : EdgeAdjustList), this.parentEdges[v]? = some eal →
      ∀ u : Int32, u ∈ eal.adjustVertexes ↔ HasEdge this.toTDirectedGraph u v) ∧
    (∀ u v : Int32, this.IsPosition v → ∃ eal, elementAt this.parentEdges v.toInt = .ok eal ∧
      (u ∈ eal.adjustVertexes ↔ this.isValidEdge u v = true)) ∧
    (∀ edge : TEdge ET, ∃ (ret : Bool) (this' : TBackwardGraph VT ET),
      this.addEdge edge = .ok (ret, this') ∧ (ret = false → this' = this)) := by
  have ht := h.transposed
  refine ⟨ht.length_eq, ht.mem_iff, ?_, ?_⟩
  · intro u v hv
    rw [TDirectedGraph.IsPosition, ← ht.length_eq] at hv
    rcases elementAt_ok hv.1 hv.2 with ⟨eal, heal⟩
    refine ⟨eal, heal, ?_⟩
    rcases Int.eq_ofNat_of_zero_le hv.1 with ⟨n, hn⟩
    rw [hn] at heal
    rw [ht.mem_iff n eal (elementAt_eq_ok.1 heal), TDirectedGraph.isValidEdge_iff]
    constructor
    · rintro ⟨edge, hget, rfl, hend⟩
      have hv' : edge.endId = v := Int32.toInt_inj.1 (hend.trans hn.symm)
      rw [hv'] at hget
      exact ⟨edge, hget⟩
    · rintro ⟨edge, hget⟩
      rcases ht.keyed.getElem?_edgeKey hget with ⟨rfl, rfl⟩
      exact ⟨edge, hget, rfl, hn⟩
  · intro edge
    rcases addEdge_ok ht.length_eq edge with ⟨⟨ret, this'⟩, hadd⟩
    refine ⟨ret, this', hadd, ?_⟩
    intro hret
    rcases addEdge_cases hadd with ⟨-, -, hsame⟩ | ⟨htrue, -, -⟩
    · exact hsame
    · rw [hret] at htrue
      cases htrue

/-- Two vertices and an edge between them. -/
theorem parents_transpose_sample :
    ∃ this : TBackwardGraph Bool UInt8, this.isValidEdge 0 1 = true ∧
      this.parentEdges.length = this.vertexArray.length := by
  let start : TBackwardGraph Bool UInt8 := addVertex (addVertex { bDirectSelf := false } true) false
  have hstart : Reachable false start := .addVertex false (.addVertex true .new)
  have hadd : start.addEdge { startId := 0, endId := 1, weight := 7 } = .ok (true, _) := rfl
  exact ⟨_, by decide, (parents_transpose (hstart.addEdge hadd)).1⟩

end TBackwardGraph

end Septem
