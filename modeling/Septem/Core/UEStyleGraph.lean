import Septem.Core.GraphSerialize

/-!
# UEStyleGraph — `TDirectedGraph` in a build with `UE_STYLE_CONTAINER`

With `UE_STYLE_CONTAINER` set to `1` the graph is built on `TArray` and `TMap` of `Core/Containers`,
which wrap a `std::vector` and a `std::map`.  `toStd` takes off the wrappers; the operations and
`Seriallize` do under them what they do in the other build (`addEdge_toStd`, `seriallize_toStd`).
`Deseriallize` does not: `TArray::Reset` resizes the vector too, but then clears it.

`TBackwardGraph` has no such build: it calls `Add` on a `std::set`.
-/

namespace Septem

namespace UEStyle

open Cxx

/-! ## Containers -/

structure TArray (T : Type) where
  mVector : List T := []

namespace TArray

variable {T : Type}

/-- `Reset(InNum)`, whose parameter only matters when it is negative. -/
def reset [Inhabited T] (this : TArray T) (inNum : Int32) : Checked (TArray T) := do
  let _ ← resize this.mVector inNum.toInt default
  return { mVector := [] }

/-- `Num()`, converted to `int32`. -/
def num (this : TArray T) : Int32 :=
  Int32.ofNat this.mVector.length

def size (this : TArray T) : Nat :=
  this.mVector.length

/-- `operator[](Index)`, unchecked; `index` is the value of the `int32`. -/
def element (this : TArray T) (index : Int) : Checked T :=
  elementAt this.mVector index

/-- Both overloads of `Add`: the index of the new element and the array. -/
def add (this : TArray T) (item : T) : Int32 × TArray T :=
  let ret : Int32 := Int32.ofNat this.mVector.length
  (ret, { mVector := this.mVector ++ [item] })

theorem reset_ok [Inhabited T] (this : TArray T) {inNum : Int32} (h : 0 ≤ inNum.toInt) :
    this.reset inNum = .ok {} := by
  rcases resize_ok this.mVector h default with ⟨resized, hresize, -⟩
  rw [reset, hresize]
  rfl

/-- A negative number throws, like every resizing to it. -/
theorem reset_eq_ok [Inhabited T] {this other : TArray T} {inNum : Int32} :
    this.reset inNum = .ok other ↔ 0 ≤ inNum.toInt ∧ other = {} := by
  by_cases h : 0 ≤ inNum.toInt
  · rw [this.reset_ok h]
    constructor
    · rintro hsame
      cases hsame
      exact ⟨h, rfl⟩
    · rintro ⟨-, rfl⟩
      rfl
  · rw [reset, resize, if_neg h]
    exact iff_of_false nofun fun hright => h hright.1

end TArray

structure TMap (KeyType ValueType : Type) [Ord KeyType] where
  mMap : Std.ExtTreeMap KeyType ValueType := ∅

namespace TMap

variable {KeyType ValueType : Type} [Ord KeyType] [Std.TransOrd KeyType]

def contains (this : TMap KeyType ValueType) (key : KeyType) : Bool :=
  this.mMap.contains key

/-- `Add(Key, Value)`: `std::map::insert`, which does not replace an entry. -/
def add (this : TMap KeyType ValueType) (key : KeyType) (value : ValueType) :
    TMap KeyType ValueType :=
  { mMap := this.mMap.insertIfNew key value }

omit [Std.TransOrd KeyType] in
def reset (_this : TMap KeyType ValueType) : TMap KeyType ValueType :=
  { mMap := ∅ }

/-- `GetKeys(OutKeyTypeArray)`: the value and the array of the keys, in the order of the map. -/
def getKeys [Inhabited KeyType] (this : TMap KeyType ValueType)
    (outKeyTypeArray : TArray KeyType) : Checked (Int32 × TArray KeyType) := do
  let ret : Int32 := Int32.ofNat this.mMap.size
  let outKeyTypeArray ← outKeyTypeArray.reset 0
  return (ret, this.mMap.keys.foldl (fun out key => (out.add key).2) outKeyTypeArray)

/-- `Num()`, converted to `int32`. -/
def num (this : TMap KeyType ValueType) : Int32 :=
  Int32.ofNat this.mMap.size

def size (this : TMap KeyType ValueType) : Nat :=
  this.mMap.size

/-- `operator[](Key)`, which inserts a value-initialised value for a new key. -/
def element [Inhabited ValueType] (this : TMap KeyType ValueType) (key : KeyType) :
    ValueType × TMap KeyType ValueType :=
  match this.mMap[key]? with
  | some value => (value, this)
  | none => (default, { mMap := this.mMap.insert key default })

theorem add_of_not_contains [Std.LawfulEqOrd KeyType] {this : TMap KeyType ValueType} {key : KeyType}
    (h : this.contains key = false) (value : ValueType) :
    (this.add key value).mMap = this.mMap.insert key value := by
  have hnew : key ∉ this.mMap := by
    rw [Std.ExtTreeMap.mem_iff_contains]
    exact Bool.eq_false_iff.1 h
  apply Std.ExtTreeMap.ext_getElem?
  intro k
  rw [add, Std.ExtTreeMap.getElem?_insertIfNew, Std.ExtTreeMap.getElem?_insert]
  by_cases hk : compare key k = .eq
  · rw [if_pos ⟨hk, hnew⟩, if_pos hk]
  · rw [if_neg fun hboth => hk hboth.1, if_neg hk]

end TMap

/-! ## The graph -/

structure TDirectedGraph (VT ET : Type) where
  bDirectSelf : Bool := false
  vertexArray : TArray (TVertex VT) := {}
  edgeMap : TMap UInt64 (TEdge ET) := {}

namespace TDirectedGraph

variable {VT ET : Type}

def vertexCount (this : TDirectedGraph VT ET) : Int32 :=
  this.vertexArray.num

def edgeCount (this : TDirectedGraph VT ET) : Int32 :=
  this.edgeMap.num

def edgeSize (this : TDirectedGraph VT ET) : UInt64 :=
  toUInt64 this.edgeMap.num

/-- Both overloads of `AddVertex`. -/
def addVertex (this : TDirectedGraph VT ET) (inVT : VT) : TDirectedGraph VT ET :=
  let vertex : TVertex VT := { index := this.vertexArray.num, value := inVT }
  { this with vertexArray := (this.vertexArray.add vertex).2 }

def isValidVertexIndex (this : TDirectedGraph VT ET) (inIndex : Int32) : Bool :=
  decide (inIndex ≥ 0) && decide (inIndex < this.vertexArray.num)

def addEdge (this : TDirectedGraph VT ET) (inEdge : TEdge ET) : Bool × TDirectedGraph VT ET :=
  if inEdge.startId = inEdge.endId ∧ !this.bDirectSelf then
    (false, this)
  else if this.isValidVertexIndex inEdge.startId && this.isValidVertexIndex inEdge.endId then
    let key := hashEdgeKey (toUInt64 inEdge.startId) (toUInt64 inEdge.endId)
    if this.edgeMap.contains key then
      (false, this)
    else
      (true, { this with edgeMap := this.edgeMap.add key inEdge })
  else
    (false, this)

/-- `Reset()`; it leaves `bDirectSelf` alone. -/
def reset [Inhabited VT] (this : TDirectedGraph VT ET) : Checked (TDirectedGraph VT ET) := do
  let vertexArray ← this.vertexArray.reset 0
  return { this with vertexArray, edgeMap := this.edgeMap.reset }

/-- `GetEdge(InKey)`. -/
def getEdgeByKey [Inhabited ET] (this : TDirectedGraph VT ET) (inKey : UInt64) :
    TEdge ET × TDirectedGraph VT ET :=
  let (edge, edgeMap) := this.edgeMap.element inKey
  (edge, { this with edgeMap })

/-- `GetEdge(InStartIndex, InEndIndex)`. -/
def getEdge [Inhabited ET] (this : TDirectedGraph VT ET) (inStartIndex inEndIndex : Int32) :
    TEdge ET × TDirectedGraph VT ET :=
  this.getEdgeByKey (hashEdgeKey (toUInt64 inStartIndex) (toUInt64 inEndIndex))

def getEdgeKeys (this : TDirectedGraph VT ET) (outKeys : TArray UInt64) :
    Checked (Int32 × TArray UInt64) :=
  this.edgeMap.getKeys outKeys

def isValidEdge (this : TDirectedGraph VT ET) (inStartId inEndId : Int32) : Bool :=
  this.edgeMap.contains (hashEdgeKey (toUInt64 inStartId) (toUInt64 inEndId))

variable [TriviallyCopyable VT] [TriviallyCopyable ET]

/-- The `OutSize` that `Seriallize` computes. -/
def outSize (this : TDirectedGraph VT ET) : UInt64 :=
  UInt64.ofNat (sizeof Bool) + UInt64.ofNat (sizeof Int32) +
    UInt64.ofNat (sizeof (TVertex VT)) * toUInt64 this.vertexCount + UInt64.ofNat (sizeof Int32) +
    UInt64.ofNat (sizeof UInt64) * toUInt64 this.edgeCount +
    UInt64.ofNat (sizeof (TEdge ET)) * toUInt64 this.edgeCount

section Seriallize

variable [Inhabited ET]

/-- The six sections, written to the buffer from its start. -/
def writeSections (this : TDirectedGraph VT ET) (outBuffer : Bytes) : Checked Bytes := do
  let cur ← put (toBytes this.bDirectSelf) (outBuffer, 0)
  let vertexCount := this.vertexCount
  let cur ← put (toBytes vertexCount) cur
  let cur ← putLoop (fun i => do
    let vertex ← this.vertexArray.element i
    return toBytes vertex) vertexCount.toInt.toNat 0 cur
  let (edgeCount, edgekeys) ← this.edgeMap.getKeys {}
  let cur ← put (toBytes edgeCount) cur
  let cur ← putLoop (fun i => do
    let key ← edgekeys.element i
    return toBytes key) edgeCount.toInt.toNat 0 cur
  -- The keys are in the map, so `operator[]` inserts nothing.
  let cur ← putLoop (fun i => do
    let key ← edgekeys.element i
    return toBytes (this.edgeMap.element key).1) edgeCount.toInt.toNat 0 cur
  return cur.1

/-- `Seriallize(OutBuffer, OutSize, bAllocBuffer)`: the caller's buffer and `OutSize` afterwards. -/
def seriallize (this : TDirectedGraph VT ET) (outBuffer : Bytes) (bAllocBuffer : Bool) :
    Checked (Bytes × UInt64) :=
  if bAllocBuffer then do
    let _ ← this.writeSections (List.replicate this.outSize.toNat 0)
    return (outBuffer, this.outSize)
  else do
    let outBuffer ← this.writeSections outBuffer
    return (outBuffer, this.outSize)

end Seriallize

/-- `Deseriallize(InBuffer, InSize)`; `InSize` is not looked at. -/
def deseriallize [Inhabited VT] (this : TDirectedGraph VT ET) (inBuffer : Bytes)
    (_inSize : UInt64) : Checked (TDirectedGraph VT ET) := do
  let this ← this.reset
  let (bDirectSelf, cur) ← fetch Bool (inBuffer, 0)
  let this := { this with bDirectSelf }
  let (vertexCount, cur) ← fetch Int32 cur
  -- The array is empty again afterwards.
  let vertexArray ← this.vertexArray.reset vertexCount
  let this := { this with vertexArray }
  let (this, cur) ← fetchLoop (fun this (vertex : TVertex VT) => pure (this.addVertex vertex.value))
    vertexCount.toInt.toNat this cur
  let (edgeCount, cur) ← fetch Int32 cur
  let edgekeys ← ({} : TArray UInt64).reset edgeCount
  -- The keys are read but not used: `AddEdge` computes them again.
  let (_edgekeys, cur) ← fetchLoop (fun edgekeys (key : UInt64) => pure (edgekeys.add key).2)
    edgeCount.toInt.toNat edgekeys cur
  let this := { this with edgeMap := this.edgeMap.reset }
  let (this, _) ← fetchLoop (fun this (value : TEdge ET) => pure (this.addEdge value).2)
    edgeCount.toInt.toNat this cur
  return this

/-! ## The other build -/

section ToStd

omit [TriviallyCopyable VT] [TriviallyCopyable ET]

/-- The graph without the wrappers. -/
def toStd (this : TDirectedGraph VT ET) : Septem.TDirectedGraph VT ET :=
  { bDirectSelf := this.bDirectSelf
    vertexArray := this.vertexArray.mVector
    edgeMap := this.edgeMap.mMap }

theorem toStd_inj {this other : TDirectedGraph VT ET} (h : this.toStd = other.toStd) :
    this = other := by
  obtain ⟨flag, ⟨vertices⟩, ⟨edges⟩⟩ := this
  obtain ⟨flag', ⟨vertices'⟩, ⟨edges'⟩⟩ := other
  cases h
  rfl

@[simp] theorem addVertex_toStd (this : TDirectedGraph VT ET) (inVT : VT) :
    (this.addVertex inVT).toStd = this.toStd.addVertex inVT := rfl

theorem addEdge_toStd (this : TDirectedGraph VT ET) (edge : TEdge ET) :
    this.toStd.addEdge edge = ((this.addEdge edge).1, (this.addEdge edge).2.toStd) := by
  by_cases hself : edge.startId = edge.endId ∧ (!this.bDirectSelf) = true
  · rw [addEdge, if_pos hself, Septem.TDirectedGraph.addEdge]
    exact if_pos hself
  · rw [addEdge, if_neg hself, Septem.TDirectedGraph.addEdge]
    refine (if_neg hself).trans ?_
    by_cases hvalid :
        (this.isValidVertexIndex edge.startId && this.isValidVertexIndex edge.endId) = true
    · rw [if_pos hvalid]
      refine (if_pos hvalid).trans ?_
      dsimp only
      cases hkey : this.edgeMap.contains
          (hashEdgeKey (toUInt64 edge.startId) (toUInt64 edge.endId)) with
      | true => exact if_pos hkey
      | false =>
          refine (if_neg (Bool.eq_false_iff.1 hkey)).trans ?_
          rw [if_neg Bool.false_ne_true, toStd, toStd, TMap.add_of_not_contains hkey]
    · rw [if_neg hvalid]
      exact if_neg hvalid

theorem foldl_addVertex_toStd (this : TDirectedGraph VT ET) (vertices : List (TVertex VT)) :
    (vertices.foldl (fun this vertex => this.addVertex vertex.value) this).toStd =
      vertices.foldl (fun this vertex => this.addVertex vertex.value) this.toStd :=
  (List.foldl_hom toStd fun this vertex => addVertex_toStd this vertex.value).symm

theorem foldl_addEdge_toStd (this : TDirectedGraph VT ET) (edges : List (TEdge ET)) :
    (edges.foldl (fun this edge => (this.addEdge edge).2) this).toStd =
      edges.foldl (fun this edge => (this.addEdge edge).2) this.toStd :=
  (List.foldl_hom toStd fun this edge => congrArg Prod.snd (addEdge_toStd this edge)).symm

theorem reset_eq [Inhabited VT] (this : TDirectedGraph VT ET) :
    this.reset = .ok { bDirectSelf := this.bDirectSelf } := by
  have harray : this.vertexArray.reset 0 = .ok {} := this.vertexArray.reset_ok (Int.le_refl 0)
  rw [reset, harray]
  rfl

end ToStd

section Seriallize

variable [Inhabited ET]

end Seriallize

end TDirectedGraph

end UEStyle

end Septem
