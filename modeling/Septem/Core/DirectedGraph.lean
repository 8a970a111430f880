import Septem.Core.GraphType

/-!
# DirectedGraph — `TDirectedGraph` of `Core/Templates/DirectedGraph.hpp`

The graph container with the standard-library containers it is built with (`UE_STYLE_CONTAINER`
is `0`): a vector of vertices and a map from 64-bit keys to edges.  A member function that changes
the graph returns the graph it leaves; `Seriallize` and `Deseriallize` are in `GraphSerialize`.
-/

namespace Septem

open Cxx

structure TDirectedGraph (VT ET : Type) where
  bDirectSelf : Bool := false
  vertexArray : List (TVertex VT) := []
  edgeMap : Std.ExtTreeMap UInt64 (TEdge ET) := ∅

namespace TDirectedGraph

variable {VT ET : Type}

/-- `VertexCount()`: `(int32)VertexArray.size()`. -/
def vertexCount (this : TDirectedGraph VT ET) : Int32 :=
  Int32.ofNat this.vertexArray.length

/-- `EdgeCount()`: `(int32)EdgeMap.size()`. -/
def edgeCount (this : TDirectedGraph VT ET) : Int32 :=
  Int32.ofNat this.edgeMap.size

def edgeSize (this : TDirectedGraph VT ET) : Nat :=
  this.edgeMap.size

/-- Both overloads of `AddVertex`. -/
def addVertex (this : TDirectedGraph VT ET) (inVT : VT) : TDirectedGraph VT ET :=
  let vertex : TVertex VT := { index := Int32.ofNat this.vertexArray.length, value := inVT }
  { this with vertexArray := this.vertexArray ++ [vertex] }

def isValidVertexIndex (this : TDirectedGraph VT ET) (inIndex : Int32) : Bool :=
  decide (inIndex ≥ 0) && decide (inIndex < Int32.ofNat this.vertexArray.length)

def addEdge (this : TDirectedGraph VT ET) (inEdge : TEdge ET) : Bool × TDirectedGraph VT ET :=
  -- An edge from a vertex to itself needs `bDirectSelf`.
  if inEdge.startId = inEdge.endId ∧ !this.bDirectSelf then
    (false, this)
  else if this.isValidVertexIndex inEdge.startId && this.isValidVertexIndex inEdge.endId then
    let key := hashEdgeKey (toUInt64 inEdge.startId) (toUInt64 inEdge.endId)
    if this.edgeMap.contains key then
      (false, this)
    else
      (true, { this with edgeMap := this.edgeMap.insert key inEdge })
  else
    (false, this)

/-- `Reset()`; it leaves `bDirectSelf` alone. -/
def reset (this : TDirectedGraph VT ET) : TDirectedGraph VT ET :=
  { this with edgeMap := ∅, vertexArray := [] }

/-- `GetEdge(InKey)`: `EdgeMap[InKey]`, which inserts a value-initialised edge for a new key. -/
def getEdgeByKey [Inhabited ET] (this : TDirectedGraph VT ET) (inKey : UInt64) :
    TEdge ET × TDirectedGraph VT ET :=
  match this.edgeMap[inKey]? with
  | some edge => (edge, this)
  | none => (default, { this with edgeMap := this.edgeMap.insert inKey default })

/-- `GetEdge(InStartIndex, InEndIndex)`. -/
def getEdge [Inhabited ET] (this : TDirectedGraph VT ET) (inStartIndex inEndIndex : Int32) :
    TEdge ET × TDirectedGraph VT ET :=
  this.getEdgeByKey (hashEdgeKey (toUInt64 inStartIndex) (toUInt64 inEndIndex))

/-- `GetEdgeKeys(OutKeys)`: the value and what `OutKeys` holds, in the order of the map. -/
def getEdgeKeys (this : TDirectedGraph VT ET) : Int32 × List UInt64 :=
  let ret : Int32 := Int32.ofNat this.edgeMap.size
  (ret, this.edgeMap.keys)

def isValidEdge (this : TDirectedGraph VT ET) (inStartId inEndId : Int32) : Bool :=
  this.edgeMap.contains (hashEdgeKey (toUInt64 inStartId) (toUInt64 inEndId))

/-! ## Sizes -/

theorem vertexCount_le (this : TDirectedGraph VT ET) :
    this.vertexCount.toInt.toNat ≤ this.vertexArray.length :=
  Int.toNat_le.2 (toInt_ofNat_le _)

theorem edgeCount_le (this : TDirectedGraph VT ET) :
    this.edgeCount.toInt.toNat ≤ this.edgeMap.keys.length := by
  rw [Std.ExtTreeMap.length_keys]
  exact Int.toNat_le.2 (toInt_ofNat_le _)

/-! ## What the operations do -/

/-- The id is the position of a vertex. -/
def IsPosition (this : TDirectedGraph VT ET) (id : Int32) : Prop :=
  0 ≤ id.toInt ∧ id.toInt < this.vertexArray.length

/-- An accepted id is a position, however many vertices there are. -/
theorem isPosition_of_isValidVertexIndex {this : TDirectedGraph VT ET} {id : Int32}
    (h : this.isValidVertexIndex id = true) : this.IsPosition id := by
  rw [isValidVertexIndex, Bool.and_eq_true, decide_eq_true_iff, decide_eq_true_iff] at h
  have hle := toInt_ofNat_le this.vertexArray.length
  have hlt := Int32.lt_iff_toInt_lt.1 h.2
  exact ⟨Int32.le_iff_toInt_le.1 h.1, by omega⟩

theorem isValidVertexIndex_iff {this : TDirectedGraph VT ET}
    (hsize : this.vertexArray.length < 2 ^ 31) (id : Int32) :
    this.isValidVertexIndex id = true ↔ this.IsPosition id := by
  rw [isValidVertexIndex, Bool.and_eq_true, decide_eq_true_iff, decide_eq_true_iff, ge_iff_le,
    Int32.le_iff_toInt_le, Int32.lt_iff_toInt_lt, Int32.toInt_ofNat_of_lt hsize]
  exact Iff.rfl

/-- The conditions `AddEdge` tests. -/
structure Accepts (this : TDirectedGraph VT ET) (edge : TEdge ET) : Prop where
  directSelf : edge.startId ≠ edge.endId ∨ this.bDirectSelf = true
  startId : this.isValidVertexIndex edge.startId = true
  endId : this.isValidVertexIndex edge.endId = true
  new : this.isValidEdge edge.startId edge.endId = false

theorem addEdge_accepted {this : TDirectedGraph VT ET} {edge : TEdge ET} (h : this.Accepts edge) :
    this.addEdge edge = (true, { this with
      edgeMap := this.edgeMap.insert (edgeKey edge.startId edge.endId) edge }) := by
  have hself : ¬ (edge.startId = edge.endId ∧ (!this.bDirectSelf) = true) := by
    rintro ⟨heq, hdirect⟩
    rcases h.directSelf with hne | hloop
    · exact hne heq
    · simp [hloop] at hdirect
  have hkey : this.edgeMap.contains
      (hashEdgeKey (toUInt64 edge.startId) (toUInt64 edge.endId)) = false := h.new
  simp only [addEdge, if_neg hself, h.startId, h.endId, hkey, Bool.and_self, if_true,
    Bool.false_eq_true, if_false]
  rfl

theorem addEdge_refused {this : TDirectedGraph VT ET} {edge : TEdge ET}
    (h : ¬ this.Accepts edge) : this.addEdge edge = (false, this) := by
  unfold addEdge
  split
  · rfl
  · rename_i hself
    split
    · rename_i hvalid
      rw [Bool.and_eq_true] at hvalid
      dsimp only
      split
      · rfl
      · rename_i hkey
        -- All tests passed, so the edge was acceptable after all.
        refine absurd ⟨?_, hvalid.1, hvalid.2, Bool.eq_false_iff.2 hkey⟩ h
        by_cases heq : edge.startId = edge.endId
        · refine Or.inr ?_
          cases hdirect : this.bDirectSelf with
          | true => rfl
          | false => exact absurd ⟨heq, by simp [hdirect]⟩ hself
        · exact Or.inl heq
    · rfl

theorem addEdge_fst_iff {this : TDirectedGraph VT ET} {edge : TEdge ET} :
    (this.addEdge edge).1 = true ↔ this.Accepts edge := by
  by_cases h : this.Accepts edge
  · rw [addEdge_accepted h]
    exact iff_of_true rfl h
  · rw [addEdge_refused h]
    exact iff_of_false Bool.false_ne_true h

@[simp] theorem addEdge_vertexArray (this : TDirectedGraph VT ET) (edge : TEdge ET) :
    (this.addEdge edge).2.vertexArray = this.vertexArray := by
  by_cases h : this.Accepts edge
  · rw [addEdge_accepted h]
  · rw [addEdge_refused h]

@[simp] theorem addEdge_bDirectSelf (this : TDirectedGraph VT ET) (edge : TEdge ET) :
    (this.addEdge edge).2.bDirectSelf = this.bDirectSelf := by
  by_cases h : this.Accepts edge
  · rw [addEdge_accepted h]
  · rw [addEdge_refused h]

/-- A graph without vertices refuses every edge. -/
theorem addEdge_noVertex {this : TDirectedGraph VT ET} (h : this.vertexArray = [])
    (edge : TEdge ET) : this.addEdge edge = (false, this) := by
  apply addEdge_refused
  intro hacc
  have hpos := isPosition_of_isValidVertexIndex hacc.startId
  rw [IsPosition, h, List.length_nil] at hpos
  omega

/-! ## The edge map -/

/-- Every edge is stored under its own key and joins positions of the vertex array. -/
structure Keyed (this : TDirectedGraph VT ET) : Prop where
  key : ∀ (k : UInt64) (edge : TEdge ET), this.edgeMap[k]? = some edge →
    k = edgeKey edge.startId edge.endId
  ends : ∀ (k : UInt64) (edge : TEdge ET), this.edgeMap[k]? = some edge →
    this.IsPosition edge.startId ∧ this.IsPosition edge.endId

theorem new_keyed (bDirectSelf : Bool) :
    ({ bDirectSelf := bDirectSelf } : TDirectedGraph VT ET).Keyed := by
  constructor
  · intro k edge h
    simp at h
  · intro k edge h
    simp at h

theorem addVertex_keyed {this : TDirectedGraph VT ET} (h : this.Keyed) (inVT : VT) :
    (this.addVertex inVT).Keyed := by
  refine ⟨h.key, ?_⟩
  intro k edge hedge
  have hold := h.ends k edge hedge
  simp only [IsPosition, addVertex, List.length_append, List.length_singleton] at hold ⊢
  omega

theorem addEdge_keyed {this : TDirectedGraph VT ET} (h : this.Keyed) (edge : TEdge ET) :
    (this.addEdge edge).2.Keyed := by
  by_cases hacc : this.Accepts edge
  · rw [addEdge_accepted hacc]
    constructor
    · intro k e hget
      rw [Std.ExtTreeMap.getElem?_insert] at hget
      split at hget
      · -- The new edge was inserted under the key of its own ends.
        rename_i hk
        cases hget
        exact (Std.LawfulEqCmp.eq_of_compare hk).symm
      · exact h.key k e hget
    · intro k e hget
      rw [Std.ExtTreeMap.getElem?_insert] at hget
      split at hget
      · cases hget
        exact ⟨isPosition_of_isValidVertexIndex hacc.startId,
          isPosition_of_isValidVertexIndex hacc.endId⟩
      · exact h.ends k e hget
  · rw [addEdge_refused hacc]
    exact h

theorem reset_keyed (this : TDirectedGraph VT ET) : this.reset.Keyed :=
  new_keyed this.bDirectSelf

/-- The graphs built from the constructed one; only a derived class or `Deseriallize` can set
`bDirectSelf`. -/
inductive Reachable (bDirectSelf : Bool) : TDirectedGraph VT ET → Prop where
  | new : Reachable bDirectSelf { bDirectSelf := bDirectSelf }
  | addVertex {this : TDirectedGraph VT ET} (inVT : VT) :
      Reachable bDirectSelf this → Reachable bDirectSelf (this.addVertex inVT)
  | addEdge {this : TDirectedGraph VT ET} (inEdge : TEdge ET) :
      Reachable bDirectSelf this → Reachable bDirectSelf (this.addEdge inEdge).2
  | reset {this : TDirectedGraph VT ET} :
      Reachable bDirectSelf this → Reachable bDirectSelf this.reset

theorem Reachable.keyed {bDirectSelf : Bool} {this : TDirectedGraph VT ET}
    (h : Reachable bDirectSelf this) : this.Keyed := by
  induction h with
  | new => exact new_keyed bDirectSelf
  | addVertex inVT _ ih => exact addVertex_keyed ih inVT
  | addEdge inEdge _ ih => exact addEdge_keyed ih inEdge
  | reset _ _ => exact reset_keyed _

/-- Without vertices there are no edges. -/
theorem Keyed.eq_new {this : TDirectedGraph VT ET} (h : this.Keyed)
    (hempty : this.vertexArray = []) : this = { bDirectSelf := this.bDirectSelf } := by
  have hmap : this.edgeMap = ∅ := by
    apply Std.ExtTreeMap.ext_getElem?
    intro k
    cases hk : this.edgeMap[k]? with
    | none => simp
    | some edge =>
        -- An edge would start at a position of the empty array.
        have hpos := (h.ends k edge hk).1
        rw [IsPosition, hempty, List.length_nil] at hpos
        omega
  obtain ⟨bDirectSelf, vertexArray, edgeMap⟩ := this
  simp only at hempty hmap
  rw [hempty, hmap]

/-- A query for any two ids finds exactly the edge between them. -/
theorem Keyed.getElem?_edgeKey {this : TDirectedGraph VT ET} (h : this.Keyed) {s t : Int32}
    {edge : TEdge ET} (hget : this.edgeMap[edgeKey s t]? = some edge) :
    edge.startId = s ∧ edge.endId = t := by
  have hends := h.ends _ _ hget
  have hkey := (edgeKey_inj hends.1.1 hends.2.1).1 (h.key _ _ hget)
  exact ⟨hkey.1.symm, hkey.2.symm⟩

theorem isValidEdge_iff (this : TDirectedGraph VT ET) (s t : Int32) :
    this.isValidEdge s t = true ↔ ∃ edge, this.edgeMap[edgeKey s t]? = some edge := by
  rw [← Option.isSome_iff_exists, ← Std.ExtTreeMap.contains_eq_isSome_getElem?]
  exact Iff.rfl

end TDirectedGraph

end Septem
