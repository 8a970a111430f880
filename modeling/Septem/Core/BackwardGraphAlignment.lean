import Septem.Core.BackwardGraph
import Septem.Library.Run

/-!
# BackwardGraphAlignment — runs of `TBackwardGraph` with `Deseriallize`

The two tables of a `TBackwardGraph` are aligned when they have the same length and each entry
carries its own position.  Two things break this: `EdgeAdjustList` ignores the index it is
constructed with, and `Deseriallize` makes room for the vertices in `VertexArray` before the virtual
`AddVertex` appends them to both tables.  `StepCondition` is what a step must avoid; a run stays
aligned exactly when every step does (`aligned_iff`).
-/

namespace Septem

open Cxx

variable {VT ET : Type} [TriviallyCopyable VT] [TriviallyCopyable ET] [Inhabited ET]

/-- Bytes that `Seriallize` of some graph left in a buffer. -/
structure SerializedGraph (VT ET : Type) [TriviallyCopyable VT] [TriviallyCopyable ET]
    [Inhabited ET] where
  source : TDirectedGraph VT ET
  outBuffer : Bytes
  bytes : Bytes
  size : UInt64
  seriallize_eq : source.seriallize outBuffer false = .ok (bytes, size)

inductive BackwardOp (VT ET : Type) [TriviallyCopyable VT] [TriviallyCopyable ET] [Inhabited ET]
  | addVertex (inVT : VT)
  | addEdge (inEdge : TEdge ET)
  | reset
  | deseriallize (input : SerializedGraph VT ET)

namespace TBackwardGraph

variable [Inhabited VT]

def step (this : TBackwardGraph VT ET) : BackwardOp VT ET → Checked (TBackwardGraph VT ET)
  | .addVertex inVT => pure (this.addVertex inVT)
  | .addEdge inEdge => do
      let (_, this) ← this.addEdge inEdge
      return this
  | .reset => pure this.reset
  | .deseriallize input => TDirectedGraph.deseriallize graphClass this input.bytes input.size

/-! ## Alignment -/

omit [TriviallyCopyable VT] [TriviallyCopyable ET] [Inhabited ET] [Inhabited VT] in
structure Aligned (this : TBackwardGraph VT ET) : Prop where
  length_eq : this.parentEdges.length = this.vertexArray.length
  vertexIndex : ∀ (i : Nat) (vertex : TVertex VT), this.vertexArray[i]? = some vertex →
    vertex.index.toInt = i
  parentIndex : ∀ (i : Nat) (eal : EdgeAdjustList), this.parentEdges[i]? = some eal →
    eal.index.toInt = i

/-- The step leaves the tables aligned and makes no access outside them; `std::length_error` may be
thrown. -/
def StepAligned (this : TBackwardGraph VT ET) (op : BackwardOp VT ET) : Prop :=
  (∀ fault, this.step op = .error fault → fault = .lengthError) ∧
  ∀ this', this.step op = .ok this' → this'.Aligned

/-- No second vertex is added, and only graphs without a positive vertex count are loaded. -/
def StepCondition (this : TBackwardGraph VT ET) : BackwardOp VT ET → Prop
  | .addVertex _ => this.vertexArray = []
  | .addEdge _ => True
  | .reset => True
  | .deseriallize input => input.source.vertexCount.toInt ≤ 0

section Operations

omit [TriviallyCopyable VT] [TriviallyCopyable ET] [Inhabited ET] [Inhabited VT]

theorem aligned_of_empty {this : TBackwardGraph VT ET} (hvertex : this.vertexArray = [])
    (hparent : this.parentEdges = []) : this.Aligned := by
  refine ⟨by rw [hvertex, hparent]; rfl, ?_, ?_⟩
  · intro i vertex h
    simp [hvertex] at h
  · intro i eal h
    simp [hparent] at h

/-- The list of a new vertex says `0`, which is right for the first vertex only. -/
theorem addVertex_aligned_iff {this : TBackwardGraph VT ET} (h : this.Aligned) (inVT : VT) :
    (this.addVertex inVT).Aligned ↔ this.vertexArray = [] := by
  constructor
  · intro hnext
    -- The list just appended carries `0` and stands at the old length.
    have hlast : (this.addVertex inVT).parentEdges[this.parentEdges.length]? =
        some (EdgeAdjustList.new this.vertexCount) := by
      simp [addVertex]
    have hzero : (0 : Int) = this.parentEdges.length := hnext.parentIndex _ _ hlast
    rw [h.length_eq] at hzero
    exact List.length_eq_zero_iff.1 (Int.ofNat_eq_zero.1 hzero.symm)
  · intro hempty
    have hparent : this.parentEdges = [] := by
      rw [← List.length_eq_zero_iff, h.length_eq, hempty]
      rfl
    refine ⟨by simp [addVertex, TDirectedGraph.addVertex, hempty, hparent], ?_, ?_⟩
    · intro i vertex hget
      simp only [addVertex, TDirectedGraph.addVertex, hempty, List.nil_append,
        List.getElem?_singleton] at hget
      split at hget
      · rename_i hi
        cases hget
        rw [hi]
        rfl
      · cases hget
    · intro i eal hget
      simp only [addVertex, hparent, List.nil_append, List.getElem?_singleton] at hget
      split at hget
      · rename_i hi
        cases hget
        rw [hi]
        rfl
      · cases hget

theorem addEdge_aligned {this this' : TBackwardGraph VT ET} (h : this.Aligned) {edge : TEdge ET}
    {ret : Bool} (hadd : this.addEdge edge = .ok (ret, this')) : this'.Aligned := by
  have hvertex : this'.vertexArray = this.vertexArray := by
    have hbase : this'.toTDirectedGraph = (this.toTDirectedGraph.addEdge edge).2 :=
      congrArg Prod.snd (addEdge_base hadd)
    rw [hbase, TDirectedGraph.addEdge_vertexArray]
  refine ⟨by rw [addEdge_length hadd, h.length_eq, hvertex], ?_, ?_⟩
  · rw [hvertex]
    exact h.vertexIndex
  · rcases addEdge_cases hadd with ⟨-, -, rfl⟩ | ⟨-, -, t, old, -, hold, rfl⟩
    · exact h.parentIndex
    · intro i eal hget
      -- The changed list keeps its index.
      by_cases hi : i = t
      · subst hi
        rw [List.getElem?_set_self (List.getElem?_eq_some_iff.1 hold).1] at hget
        cases hget
        exact h.parentIndex i old hold
      · rw [List.getElem?_set_ne (fun heq => hi heq.symm)] at hget
        exact h.parentIndex i eal hget

end Operations

/-! ## Loading -/

section Loading

omit [TriviallyCopyable VT] [TriviallyCopyable ET] [Inhabited ET] [Inhabited VT]

/-- The vertex loop of `Deseriallize` adds a list for each vertex it reads. -/
theorem foldlM_addVertex_ok (vertices : List (TVertex VT)) (this : TBackwardGraph VT ET) :
    ∃ this', vertices.foldlM (fun this vertex => graphClass.addVertex this vertex.value) this =
        .ok this' ∧
      this'.parentEdges.length = this.parentEdges.length + vertices.length := by
  induction vertices generalizing this with
  | nil => exact ⟨this, rfl, rfl⟩
  | cons vertex rest ih =>
      rcases ih (this.addVertex vertex.value) with ⟨this', hrest, hlen⟩
      refine ⟨this', hrest, ?_⟩
      rw [hlen]
      simp only [addVertex, List.length_append, List.length_cons, List.length_nil]
      omega

/-- The edge loop adds no list; if it fails it has left `ParentEdges`. -/
theorem foldlM_addEdge_cases (edges : List (TEdge ET)) (this : TBackwardGraph VT ET) :
    (∃ this', edges.foldlM (fun this value => do
        let (_, this) ← graphClass.addEdge this value
        return this) this = .ok this' ∧
      this'.parentEdges.length = this.parentEdges.length) ∨
    edges.foldlM (fun this value => do
        let (_, this) ← graphClass.addEdge this value
        return this) this = .error .outOfBounds := by
  induction edges generalizing this with
  | nil => exact Or.inl ⟨this, rfl, rfl⟩
  | cons edge rest ih =>
      rw [List.foldlM_cons]
      cases hadd : graphClass.addEdge this edge with
      | error fault =>
          have hfault : fault = .outOfBounds := addEdge_fault hadd
          rw [hfault]
          exact Or.inr rfl
      | ok r =>
          have hlen : r.2.parentEdges.length = this.parentEdges.length := addEdge_length hadd
          simp only [Checked.ok_bind, Checked.pure_eq_ok, ← hlen]
          exact ih r.2

/-- On a graph without vertices the edge loop changes nothing. -/
theorem foldlM_addEdge_noVertex (edges : List (TEdge ET)) {this : TBackwardGraph VT ET}
    (h : this.vertexArray = []) :
    edges.foldlM (fun this value => do
      let (_, this) ← graphClass.addEdge this value
      return this) this = .ok this := by
  induction edges with
  | nil => rfl
  | cons edge rest ih =>
      have hadd : graphClass.addEdge this edge = .ok (false, this) := by
        apply addEdge_refused
        rw [← TDirectedGraph.addEdge_fst_iff, TDirectedGraph.addEdge_noVertex h]
        exact Bool.false_ne_true
      rw [List.foldlM_cons, hadd]
      exact ih

end Loading

/-- What loading the bytes of a graph does, by the vertex count in them. -/
theorem step_deseriallize (this : TBackwardGraph VT ET) (input : SerializedGraph VT ET) :
    this.step (.deseriallize input) = (do
      let vertexArray ← resize [] input.source.vertexCount.toInt default
      let this ← input.source.vertexSection.foldlM
        (fun this vertex => graphClass.addVertex this vertex.value)
        (TDirectedGraph.presized graphClass this input.source.bDirectSelf vertexArray)
      input.source.edgeSection.foldlM (fun this value => do
        let (_, this) ← graphClass.addEdge this value
        return this) { this with edgeMap := ∅ }) := by
  rcases TDirectedGraph.seriallize_inv input.seriallize_eq with ⟨rest, hbytes⟩
  rw [step, hbytes, TDirectedGraph.deseriallize_sections]
  rfl

/-- A negative count makes `std::vector::resize` throw. -/
theorem deseriallize_negative {this : TBackwardGraph VT ET} {input : SerializedGraph VT ET}
    (hcount : input.source.vertexCount.toInt < 0) :
    this.step (.deseriallize input) = .error .lengthError := by
  have hresize : resize ([] : List (TVertex VT)) input.source.vertexCount.toInt default =
      .error .lengthError := if_neg (Int.not_le.2 hcount)
  rw [step_deseriallize, hresize]
  rfl

/-- Without vertices no edge is accepted, and both tables stay empty. -/
theorem deseriallize_zero {this : TBackwardGraph VT ET} {input : SerializedGraph VT ET}
    (hcount : input.source.vertexCount.toInt = 0) :
    ∃ this', this.step (.deseriallize input) = .ok this' ∧ this'.vertexArray = [] ∧
      this'.parentEdges = [] := by
  have hsection : input.source.vertexSection = [] := by
    rw [← List.length_eq_zero_iff, TDirectedGraph.length_vertexSection, hcount]
    rfl
  have hresize : resize ([] : List (TVertex VT)) 0 default = .ok [] := rfl
  rw [step_deseriallize, hcount, hresize, hsection]
  refine ⟨_, foldlM_addEdge_noVertex _ ?_, ?_, ?_⟩
  · rfl
  · rfl
  · rfl

/-- A positive count leaves twice as many entries in one table as in the other, or an edge finds
no list. -/
theorem deseriallize_positive {this : TBackwardGraph VT ET} {input : SerializedGraph VT ET}
    (hcount : 0 < input.source.vertexCount.toInt) : ¬ StepAligned this (.deseriallize input) := by
  rintro ⟨hfault, haligned⟩
  rcases resize_ok ([] : List (TVertex VT)) (Int.le_of_lt hcount) default with
    ⟨vertexArray, hresize, hlen⟩
  rcases foldlM_addVertex_ok input.source.vertexSection
    (TDirectedGraph.presized graphClass this input.source.bDirectSelf vertexArray) with
    ⟨loaded, hvertices, hparents⟩
  have hstep := step_deseriallize this input
  rw [hresize, Checked.ok_bind, hvertices, Checked.ok_bind] at hstep
  rcases foldlM_addEdge_cases input.source.edgeSection { loaded with edgeMap := ∅ } with
    ⟨this', hedges, hedgeParents⟩ | hedges
  · -- Loading returned: `2 * n` entries in one table, `n` in the other.
    rw [hedges] at hstep
    have hnumber := (haligned this' hstep).length_eq
    have hvertexArray : this'.vertexArray.length = 2 * input.source.vertexCount.toInt.toNat := by
      rcases TDirectedGraph.seriallize_inv input.seriallize_eq with ⟨rest, hbytes⟩
      rw [step, hbytes] at hstep
      exact (TDirectedGraph.length_deseriallize hstep).2
    have hparentEdges : this'.parentEdges.length = input.source.vertexCount.toInt.toNat := by
      rw [hedgeParents, hparents, TDirectedGraph.length_vertexSection]
      exact Nat.zero_add _
    omega
  · -- Loading left `ParentEdges`, which is no `std::length_error`.
    rw [hedges] at hstep
    cases hfault _ hstep

theorem deseriallize_aligned_iff (this : TBackwardGraph VT ET) (input : SerializedGraph VT ET) :
    StepAligned this (.deseriallize input) ↔ input.source.vertexCount.toInt ≤ 0 := by
  rcases Int.lt_trichotomy input.source.vertexCount.toInt 0 with hneg | hzero | hpos
  · refine iff_of_true ?_ (Int.le_of_lt hneg)
    rw [StepAligned, deseriallize_negative hneg]
    exact ⟨fun fault h => (Except.error.inj h).symm, nofun⟩
  · refine iff_of_true ?_ (Int.le_of_eq hzero)
    rcases deseriallize_zero hzero with ⟨this', hstep, hvertex, hparent⟩
    rw [StepAligned, hstep]
    refine ⟨nofun, ?_⟩
    intro next h
    cases h
    exact aligned_of_empty hvertex hparent
  · exact iff_of_false (deseriallize_positive hpos) (Int.not_le.2 hpos)

/-! ## Runs -/

/-- From aligned tables a step is right exactly under the condition. -/
theorem stepAligned_iff {this : TBackwardGraph VT ET} (h : this.Aligned)
    (op : BackwardOp VT ET) : StepAligned this op ↔ StepCondition this op := by
  cases op with
  | addVertex inVT =>
      rw [StepCondition, ← addVertex_aligned_iff h inVT]
      constructor
      · intro hstep
        exact hstep.2 _ rfl
      · intro hnext
        refine ⟨nofun, ?_⟩
        intro this' hthis'
        cases hthis'
        exact hnext
  | addEdge inEdge =>
      refine iff_of_true ?_ trivial
      rcases addEdge_ok h.length_eq inEdge with ⟨⟨ret, next⟩, hadd⟩
      have hstep : this.step (.addEdge inEdge) = .ok next := by
        rw [step, hadd]
        rfl
      rw [StepAligned, hstep]
      refine ⟨nofun, ?_⟩
      intro this' hthis'
      cases hthis'
      exact addEdge_aligned h hadd
  | reset =>
      refine iff_of_true ⟨nofun, ?_⟩ trivial
      intro this' hthis'
      cases hthis'
      exact aligned_of_empty rfl rfl
  | deseriallize input => exact deseriallize_aligned_iff this input

/-- A run from the constructed graph keeps the tables aligned exactly when every step meets the
condition; then a later `AddEdge` stays inside `ParentEdges`. -/
theorem aligned_iff (bDirectSelf : Bool) (ops : List (BackwardOp VT ET)) :
    (Along step StepAligned { bDirectSelf := bDirectSelf } ops ↔
      Along step StepCondition { bDirectSelf := bDirectSelf } ops) ∧
    (Along step StepCondition { bDirectSelf := bDirectSelf } ops →
      ∀ this : TBackwardGraph VT ET, run step { bDirectSelf := bDirectSelf } ops = .ok this →
        this.Aligned ∧ ∀ edge : TEdge ET, ∃ r, this.addEdge edge = .ok r) := by
  have hstart : ({ bDirectSelf := bDirectSelf } : TBackwardGraph VT ET).Aligned :=
    aligned_of_empty rfl rfl
  have hagree (s : TBackwardGraph VT ET) (op : BackwardOp VT ET) (h : s.Aligned) :
      StepAligned s op ↔ StepCondition s op := stepAligned_iff h op
  have hkeep (s : TBackwardGraph VT ET) (op : BackwardOp VT ET) (s' : TBackwardGraph VT ET)
      (_ : s.Aligned) (h : StepAligned s op) (hstep : step s op = .ok s') : s'.Aligned :=
    h.2 s' hstep
  have hiff := along_iff hagree hkeep hstart ops
  refine ⟨hiff, ?_⟩
  intro hcond this hrun
  have hafter (s : TBackwardGraph VT ET) (op : BackwardOp VT ET) (s' : TBackwardGraph VT ET)
      (h : StepAligned s op) (hstep : step s op = .ok s') : s'.Aligned := h.2 s' hstep
  have haligned : this.Aligned := inv_of_along hafter hstart (hiff.2 hcond) hrun
  exact ⟨haligned, addEdge_ok haligned.length_eq⟩

/-- The bytes of a graph of one vertex. -/
def oneVertexBytes : SerializedGraph UInt8 UInt8 where
  source := TDirectedGraph.oneVertex
  outBuffer := List.replicate 14 0
  bytes := [0, 1, 0, 0, 0, 0, 0, 0, 0, 5, 0, 0, 0, 0]
  size := 14
  seriallize_eq := rfl

/-- The list of a second vertex says `0`; and a loaded vertex has two entries in one table and one
in the other. -/
theorem tables_misaligned :
    (∃ this : TBackwardGraph UInt8 UInt8, run step {} [.addVertex 3, .addVertex 4] = .ok this ∧
      this.parentEdges.map EdgeAdjustList.index = [0, 0]) ∧
    (∃ this : TBackwardGraph UInt8 UInt8, run step {} [.deseriallize oneVertexBytes] = .ok this ∧
      this.vertexArray.length = 2 ∧ this.parentEdges.length = 1) ∧
    ¬ Along step StepAligned ({} : TBackwardGraph UInt8 UInt8) [.addVertex 3, .addVertex 4] ∧
    ¬ Along step StepAligned ({} : TBackwardGraph UInt8 UInt8) [.deseriallize oneVertexBytes] := by
  refine ⟨⟨_, rfl, rfl⟩, ⟨_, rfl, rfl, rfl⟩, ?_, ?_⟩
  · rintro ⟨-, hrest⟩
    have hindex := ((hrest _ rfl).1.2 _ rfl).parentIndex 1 (EdgeAdjustList.new 1) rfl
    revert hindex
    decide
  · rintro ⟨hload, -⟩
    have hlength := (hload.2 _ rfl).length_eq
    revert hlength
    decide

end TBackwardGraph

end Septem
