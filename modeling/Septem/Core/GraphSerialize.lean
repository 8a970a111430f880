import Septem.Core.DirectedGraph

/-!
# GraphSerialize — `Seriallize` and `Deseriallize` of `TDirectedGraph`

`Seriallize` writes six sections one after the other: the flag, the vertex count, the vertices,
the edge count, the keys and the edges.  `Deseriallize` reads them back, and on its way calls the
virtual functions `Reset`, `AddVertex` and `AddEdge`; `GraphClass` is the table of these functions
for the class of the object it is called on.
-/

namespace Septem

open Cxx

/-! ## Virtual functions -/

/-- A class derived from `TDirectedGraph`: its base part and its overrides, each of which does to
the base part what the function of the base class does. -/
structure GraphClass (G VT ET : Type) where
  base : G → TDirectedGraph VT ET
  withBase : G → TDirectedGraph VT ET → G
  addVertex : G → VT → Checked G
  addEdge : G → TEdge ET → Checked (Bool × G)
  reset : G → G
  base_withBase : ∀ (this : G) (b : TDirectedGraph VT ET), base (withBase this b) = b
  withBase_withBase : ∀ (this : G) (b b' : TDirectedGraph VT ET),
    withBase (withBase this b) b' = withBase this b'
  base_addVertex : ∀ (this this' : G) (inVT : VT), addVertex this inVT = .ok this' →
    base this' = (base this).addVertex inVT
  base_addEdge : ∀ (this this' : G) (edge : TEdge ET) (ret : Bool),
    addEdge this edge = .ok (ret, this') → (ret, base this') = (base this).addEdge edge
  base_reset : ∀ this : G, base (reset this) = (base this).reset

namespace TDirectedGraph

variable {VT ET : Type}

/-- `TDirectedGraph` itself. -/
def graphClass : GraphClass (TDirectedGraph VT ET) VT ET where
  base this := this
  withBase _ b := b
  addVertex this inVT := pure (this.addVertex inVT)
  addEdge this edge := pure (this.addEdge edge)
  reset := reset
  base_withBase _ _ := rfl
  withBase_withBase _ _ _ := rfl
  base_addVertex _ _ _ h := by
    cases h
    rfl
  base_addEdge this _ edge _ h := by
    have hpair : this.addEdge edge = _ := Except.ok.inj h
    exact hpair.symm
  base_reset _ := rfl

variable [TriviallyCopyable VT] [TriviallyCopyable ET]

/-! ## Writing -/

/-- The `OutSize` that `Seriallize` computes, in `SIZE_T` arithmetic. -/
def outSize (this : TDirectedGraph VT ET) : UInt64 :=
  UInt64.ofNat (sizeof Bool) + UInt64.ofNat (sizeof Int32) +
    UInt64.ofNat (sizeof (TVertex VT)) * toUInt64 this.vertexCount + UInt64.ofNat (sizeof Int32) +
    UInt64.ofNat (sizeof UInt64) * toUInt64 this.edgeCount +
    UInt64.ofNat (sizeof (TEdge ET)) * toUInt64 this.edgeCount

variable [Inhabited ET]

/-- The six sections, written to the buffer from its start. -/
def writeSections (this : TDirectedGraph VT ET) (outBuffer : Bytes) : Checked Bytes := do
  let cur ← put (toBytes this.bDirectSelf) (outBuffer, 0)
  let vertexCount := this.vertexCount
  let cur ← put (toBytes vertexCount) cur
  let cur ← putLoop (fun i => do
    let vertex ← elementAt this.vertexArray i
    return toBytes vertex) vertexCount.toInt.toNat 0 cur
  let (edgeCount, edgekeys) := this.getEdgeKeys
  let cur ← put (toBytes edgeCount) cur
  let cur ← putLoop (fun i => do
    let key ← elementAt edgekeys i
    return toBytes key) edgeCount.toInt.toNat 0 cur
  -- The keys are in the map, so `operator[]` inserts nothing.
  let cur ← putLoop (fun i => do
    let key ← elementAt edgekeys i
    return toBytes (this.getEdgeByKey key).1) edgeCount.toInt.toNat 0 cur
  return cur.1

/-- `Seriallize(OutBuffer, OutSize, bAllocBuffer)`: the caller's buffer and `OutSize` afterwards.
The pointer is a parameter by value, so an allocated buffer does not reach the caller. -/
def seriallize (this : TDirectedGraph VT ET) (outBuffer : Bytes) (bAllocBuffer : Bool) :
    Checked (Bytes × UInt64) :=
  if bAllocBuffer then do
    let _ ← this.writeSections (List.replicate this.outSize.toNat 0)
    return (outBuffer, this.outSize)
  else do
    let outBuffer ← this.writeSections outBuffer
    return (outBuffer, this.outSize)

/-! ## Reading -/

variable [Inhabited VT]

/-- `Deseriallize(InBuffer, InSize)` on an object of the class; `InSize` is not looked at. -/
def deseriallize {G : Type} (cls : GraphClass G VT ET) (this : G) (inBuffer : Bytes)
    (_inSize : UInt64) : Checked G := do
  let this := cls.reset this
  let (bDirectSelf, cur) ← fetch Bool (inBuffer, 0)
  let this := cls.withBase this { cls.base this with bDirectSelf }
  let (vertexCount, cur) ← fetch Int32 cur
  -- `VertexArray.resize(vertexCount)`, which creates `vertexCount` vertices already.
  let vertexArray ← resize (cls.base this).vertexArray vertexCount.toInt default
  let this := cls.withBase this { cls.base this with vertexArray }
  let (this, cur) ← fetchLoop (fun this (vertex : TVertex VT) => cls.addVertex this vertex.value)
    vertexCount.toInt.toNat this cur
  let (edgeCount, cur) ← fetch Int32 cur
  -- The keys are read but not used: `AddEdge` computes them again.
  let (_edgekeys, cur) ← fetchLoop (fun edgekeys (key : UInt64) => pure (edgekeys ++ [key]))
    edgeCount.toInt.toNat [] cur
  let this := cls.withBase this { cls.base this with edgeMap := ∅ }
  let (this, _) ← fetchLoop (fun this (value : TEdge ET) => do
    let (_, this) ← cls.addEdge this value
    return this) edgeCount.toInt.toNat this cur
  return this

/-! ## What was written -/

section Written

omit [Inhabited VT]

/-- The vertices that are written; they are all, unless their number does not fit an `int32`. -/
def vertexSection (this : TDirectedGraph VT ET) : List (TVertex VT) :=
  this.vertexArray.take this.vertexCount.toInt.toNat

def keySection (this : TDirectedGraph VT ET) : List UInt64 :=
  this.edgeMap.keys.take this.edgeCount.toInt.toNat

def edgeSection (this : TDirectedGraph VT ET) : List (TEdge ET) :=
  this.keySection.map fun key => (this.getEdgeByKey key).1

/-- Everything that is written, in order. -/
def sections (this : TDirectedGraph VT ET) : List Bytes :=
  toBytes this.bDirectSelf :: toBytes this.vertexCount ::
    (this.vertexSection.map toBytes ++ (toBytes this.edgeCount ::
      (this.keySection.map toBytes ++ this.edgeSection.map toBytes)))

omit [TriviallyCopyable VT] [TriviallyCopyable ET] [Inhabited ET] in
theorem length_vertexSection (this : TDirectedGraph VT ET) :
    this.vertexSection.length = this.vertexCount.toInt.toNat := by
  rw [vertexSection, List.length_take, Nat.min_eq_left this.vertexCount_le]

omit [TriviallyCopyable VT] [TriviallyCopyable ET] [Inhabited ET] in
theorem length_keySection (this : TDirectedGraph VT ET) :
    this.keySection.length = this.edgeCount.toInt.toNat := by
  rw [keySection, List.length_take, Nat.min_eq_left this.edgeCount_le]

theorem writeSections_eq (this : TDirectedGraph VT ET) (outBuffer : Bytes) :
    this.writeSections outBuffer = (putAll this.sections (outBuffer, 0)).map Prod.fst := by
  have hvertex (cur : WriteCursor) := putLoop_elementAt this.vertexCount_le toBytes cur
  have hkey (cur : WriteCursor) := putLoop_elementAt this.edgeCount_le toBytes cur
  have hedge (cur : WriteCursor) := putLoop_elementAt this.edgeCount_le
    (fun key => toBytes (this.getEdgeByKey key).1) cur
  have hcount : this.getEdgeKeys = (this.edgeCount, this.edgeMap.keys) := rfl
  simp only [writeSections, hvertex, hcount, hkey, hedge, sections, vertexSection, keySection,
    edgeSection, putAll, putAll_concat, List.map_map, Function.comp_def, Checked.map_eq_bind,
    bind_assoc]

/-- What `Seriallize` left in the buffer begins with the sections. -/
theorem writeSections_inv {this : TDirectedGraph VT ET} {outBuffer bytes : Bytes}
    (h : this.writeSections outBuffer = .ok bytes) :
    ∃ rest, bytes = this.sections.flatten ++ rest := by
  rw [writeSections_eq, Checked.map_eq_bind] at h
  rcases Checked.bind_eq_ok.1 h with ⟨cur, hput, hret⟩
  -- The writes returned, so the sections fit into the buffer.
  have hput' : putAll this.sections ([] ++ outBuffer, ([] : Bytes).length) = .ok cur := hput
  rw [putAll_append (putAll_fits hput')] at hput'
  cases hput'
  cases hret
  exact ⟨_, rfl⟩

theorem seriallize_inv {g : TDirectedGraph VT ET} {outBuffer bytes : Bytes} {size : UInt64}
    (h : g.seriallize outBuffer false = .ok (bytes, size)) :
    ∃ rest, bytes = g.sections.flatten ++ rest := by
  rcases Checked.bind_eq_ok.1 h with ⟨written, hwrite, hret⟩
  cases hret
  exact writeSections_inv hwrite

/-- What a graph without vertices writes. -/
theorem sections_new (bDirectSelf : Bool) :
    ({ bDirectSelf := bDirectSelf } : TDirectedGraph VT ET).sections =
      [toBytes bDirectSelf, toBytes (0 : Int32), toBytes (0 : Int32)] := by
  have hedge : ({ bDirectSelf := bDirectSelf } : TDirectedGraph VT ET).edgeCount = 0 := rfl
  have hkey : ({ bDirectSelf := bDirectSelf } : TDirectedGraph VT ET).keySection = [] := by
    rw [keySection, hedge]
    rfl
  have hvertex : ({ bDirectSelf := bDirectSelf } : TDirectedGraph VT ET).vertexSection = [] := rfl
  rw [sections, edgeSection, hkey, hvertex, hedge]
  rfl

omit [Inhabited ET] in
theorem outSize_new (bDirectSelf : Bool) :
    ({ bDirectSelf := bDirectSelf } : TDirectedGraph VT ET).outSize = 9 := by
  have hvertex : toUInt64 ({ bDirectSelf := bDirectSelf } : TDirectedGraph VT ET).vertexCount = 0 :=
    rfl
  have hedge : toUInt64 ({ bDirectSelf := bDirectSelf } : TDirectedGraph VT ET).edgeCount = 0 :=
    rfl
  rw [outSize, hvertex, hedge, UInt64.mul_zero, UInt64.mul_zero, UInt64.mul_zero]
  rfl

theorem seriallize_new (bDirectSelf : Bool) {outBuffer : Bytes} (hsize : outBuffer.length = 9) :
    ({ bDirectSelf := bDirectSelf } : TDirectedGraph VT ET).seriallize outBuffer false =
      .ok (({ bDirectSelf := bDirectSelf } : TDirectedGraph VT ET).sections.flatten, 9) := by
  have hlen : ({ bDirectSelf := bDirectSelf } : TDirectedGraph VT ET).sections.flatten.length =
      outBuffer.length := by
    rw [sections_new, hsize]
    rfl
  simp only [seriallize, writeSections_eq, putAll_fill hlen, outSize_new]
  rfl

end Written

/-- The object after `Reset` and the first two reads: `vertexCount` value-initialised vertices. -/
def presized {G : Type} (cls : GraphClass G VT ET) (this : G) (bDirectSelf : Bool)
    (vertexArray : List (TVertex VT)) : G :=
  cls.withBase (cls.reset this) { bDirectSelf, vertexArray, edgeMap := ∅ }

/-- Reading the sections of a graph: the loops run over the vertices and edges written. -/
theorem deseriallize_sections {G : Type} (cls : GraphClass G VT ET) (this : G)
    (source : TDirectedGraph VT ET) (rest : Bytes) (inSize : UInt64) :
    deseriallize cls this (source.sections.flatten ++ rest) inSize = (do
      let vertexArray ← resize [] source.vertexCount.toInt default
      let this ← source.vertexSection.foldlM (fun this vertex => cls.addVertex this vertex.value)
        (presized cls this source.bDirectSelf vertexArray)
      let this := cls.withBase this { cls.base this with edgeMap := ∅ }
      source.edgeSection.foldlM (fun this value => do
        let (_, this) ← cls.addEdge this value
        return this) this) := by
  have hstart : Before (source.sections.flatten ++ rest, 0) (toBytes source.bDirectSelf ++
      (toBytes source.vertexCount ++ (source.vertexSection.flatMap toBytes ++
        (toBytes source.edgeCount ++ (source.keySection.flatMap toBytes ++
          (source.edgeSection.flatMap toBytes ++ rest)))))) :=
    ⟨[], by simp [sections, List.flatMap_def]⟩
  have hlen : source.edgeSection.length = source.edgeCount.toInt.toNat := by
    rw [edgeSection, List.length_map, length_keySection]
  -- One section after the other.
  rcases fetch_before hstart with ⟨cur₁, hflag, h₁⟩
  rcases fetch_before h₁ with ⟨cur₂, hcount, h₂⟩
  rcases fetchLoop_before (σ := G) h₂ source.length_vertexSection with ⟨cur₃, h₃, hvertices⟩
  rcases fetch_before h₃ with ⟨cur₄, hedgeCount, h₄⟩
  rcases fetchLoop_before (σ := List UInt64) h₄ source.length_keySection with ⟨cur₅, h₅, hkeys⟩
  rcases fetchLoop_before (σ := G) h₅ hlen with ⟨cur₆, -, hedges⟩
  have hreset : cls.base (cls.reset this) =
      { (cls.base this) with vertexArray := [], edgeMap := ∅ } := cls.base_reset this
  simp only [deseriallize, hflag, hcount, hvertices, hedgeCount, hkeys, hedges, foldlM_collect,
    Checked.ok_bind, bind_assoc, pure_bind, bind_pure, cls.base_withBase, cls.withBase_withBase,
    hreset, presized]

/-! ## The vertex array after `Deseriallize` -/

section VertexArray

variable {G : Type} (cls : GraphClass G VT ET)

omit [TriviallyCopyable VT] [TriviallyCopyable ET] [Inhabited VT] [Inhabited ET]

theorem length_foldlM_addVertex (vertices : List (TVertex VT)) {this this' : G}
    (h : vertices.foldlM (fun this vertex => cls.addVertex this vertex.value) this = .ok this') :
    (cls.base this').vertexArray.length =
      (cls.base this).vertexArray.length + vertices.length := by
  induction vertices generalizing this with
  | nil =>
      cases h
      rfl
  | cons vertex rest ih =>
      rw [List.foldlM_cons] at h
      rcases Checked.bind_eq_ok.1 h with ⟨next, hadd, hrest⟩
      rw [ih hrest, cls.base_addVertex _ _ _ hadd]
      simp only [TDirectedGraph.addVertex, List.length_append, List.length_cons, List.length_nil]
      omega

theorem vertexArray_foldlM_addEdge (edges : List (TEdge ET)) {this this' : G}
    (h : edges.foldlM (fun this value => do
      let (_, this) ← cls.addEdge this value
      return this) this = .ok this') :
    (cls.base this').vertexArray = (cls.base this).vertexArray := by
  induction edges generalizing this with
  | nil =>
      cases h
      rfl
  | cons edge rest ih =>
      rw [List.foldlM_cons] at h
      rcases Checked.bind_eq_ok.1 h with ⟨next, hstep, hrest⟩
      rcases Checked.bind_eq_ok.1 hstep with ⟨⟨ret, added⟩, hadd, hret⟩
      cases hret
      have hbase : cls.base next = ((cls.base this).addEdge edge).2 :=
        congrArg Prod.snd (cls.base_addEdge _ _ _ _ hadd)
      rw [ih hrest, hbase, addEdge_vertexArray]

end VertexArray

/-- `resize` has already made room for the vertices that `AddVertex` appends, so the array ends up
with twice as many as were written. -/
theorem length_deseriallize {G : Type} {cls : GraphClass G VT ET} {this this' : G}
    {source : TDirectedGraph VT ET} {rest : Bytes} {inSize : UInt64}
    (h : deseriallize cls this (source.sections.flatten ++ rest) inSize = .ok this') :
    0 ≤ source.vertexCount.toInt ∧
      (cls.base this').vertexArray.length = 2 * source.vertexCount.toInt.toNat := by
  rw [deseriallize_sections] at h
  rcases Checked.bind_eq_ok.1 h with ⟨vertexArray, hresize, hrest⟩
  rcases Checked.bind_eq_ok.1 hrest with ⟨loaded, hvertices, hedges⟩
  have hnonneg : 0 ≤ source.vertexCount.toInt := by
    unfold resize at hresize
    split at hresize
    · assumption
    · cases hresize
  refine ⟨hnonneg, ?_⟩
  rw [vertexArray_foldlM_addEdge cls _ hedges, cls.base_withBase,
    length_foldlM_addVertex cls _ hvertices, presized, cls.base_withBase,
    length_of_resize hresize, length_vertexSection]
  omega

/-! ## The round trip -/

/-- The two graphs agree in all that is stored. -/
structure SameGraph (g g' : TDirectedGraph VT ET) : Prop where
  bDirectSelf : g.bDirectSelf = g'.bDirectSelf
  vertexCount : g.vertexCount = g'.vertexCount
  vertex : ∀ i : Nat, g.vertexArray[i]? = g'.vertexArray[i]?
  edge : ∀ k : UInt64, g.edgeMap[k]? = g'.edgeMap[k]?

/-- Serialize `g` to a buffer of the caller and deserialize it on `h`: the copy is `g`. -/
def RoundTrip (g h : TDirectedGraph VT ET) (outBuffer : Bytes) : Prop :=
  ∃ (bytes : Bytes) (h' : TDirectedGraph VT ET),
    g.seriallize outBuffer false = .ok (bytes, g.outSize) ∧
    deseriallize graphClass h bytes g.outSize = .ok h' ∧ SameGraph h' g

/-- A number of vertices is not twice what its `int32` conversion counts. -/
theorem length_ne_twice_count {n : Nat} (hn : n ≠ 0) (hcount : 0 ≤ (Int32.ofNat n).toInt) :
    n ≠ 2 * (Int32.ofNat n).toInt.toNat := by
  intro heq
  have hle := (Int32.ofNat n).toInt_lt
  -- `n` and its conversion differ by a multiple of `2 ^ 32`.
  have hmod : (Int32.ofNat n).toInt % 4294967296 = n % 4294967296 := by
    rw [Int32.toInt_ofNat']
    exact Int.bmod_emod ..
  omega

/-- A reachable graph survives the round trip exactly when it has no vertices. -/
theorem roundTrip_iff {bDirectSelf : Bool} {g : TDirectedGraph VT ET}
    (hg : Reachable bDirectSelf g) (h : TDirectedGraph VT ET) (outBuffer : Bytes)
    (hsize : outBuffer.length = g.outSize.toNat) :
    RoundTrip g h outBuffer ↔ g.vertexArray = [] := by
  constructor
  · rintro ⟨bytes, h', hser, hdes, hsame⟩
    rcases seriallize_inv hser with ⟨rest, rfl⟩
    rcases length_deseriallize hdes with ⟨hcount, hlength⟩
    -- The copy has as many vertices as `g` and twice as many as were written.
    have harray : h'.vertexArray = g.vertexArray := List.ext_getElem? hsame.vertex
    have hlen : g.vertexArray.length = 2 * g.vertexCount.toInt.toNat := by
      rw [← harray]
      exact hlength
    by_contra hne
    exact length_ne_twice_count (fun h0 => hne (List.length_eq_zero_iff.1 h0)) hcount hlen
  · intro hempty
    -- Without vertices there are no edges, so `g` is the constructed graph.
    have hnew := hg.keyed.eq_new hempty
    generalize g.bDirectSelf = flag at hnew
    subst hnew
    rw [outSize_new] at hsize
    refine ⟨_, { bDirectSelf := flag }, seriallize_new flag hsize, ?_, rfl, rfl, fun _ => rfl,
      fun _ => rfl⟩
    have hread := deseriallize_sections graphClass h
      ({ bDirectSelf := flag } : TDirectedGraph VT ET) [] 9
    rw [List.append_nil] at hread
    rw [outSize_new, hread]
    rfl

/-- The constructed graph, read into a graph with a vertex. -/
theorem roundTrip_new :
    RoundTrip ({} : TDirectedGraph UInt8 UInt8) (({} : TDirectedGraph UInt8 UInt8).addVertex 3)
      (List.replicate 9 0) :=
  (roundTrip_iff .new _ _ rfl).2 rfl

/-- A graph of one vertex, of value `5`. -/
def oneVertex : TDirectedGraph UInt8 UInt8 :=
  ({} : TDirectedGraph UInt8 UInt8).addVertex 5

/-- Read into a new graph it has two vertices, and the value has moved to the second. -/
theorem oneVertex_doubled :
    Reachable false oneVertex ∧ oneVertex.outSize = 14 ∧
      (∃ (bytes : Bytes) (h' : TDirectedGraph UInt8 UInt8),
        oneVertex.seriallize (List.replicate 14 0) false = .ok (bytes, 14) ∧
        deseriallize graphClass {} bytes 14 = .ok h' ∧
        h'.vertexArray = [{ index := 0, value := 0 }, { index := 1, value := 5 }]) ∧
      ¬ RoundTrip oneVertex {} (List.replicate 14 0) := by
  refine ⟨.addVertex 5 .new, rfl, ⟨_, _, rfl, rfl, rfl⟩, ?_⟩
  rintro ⟨bytes, h', hser, hdes, hsame⟩
  cases hser
  cases hdes
  have hcount := hsame.vertexCount
  revert hcount
  decide

end TDirectedGraph

end Septem
