import Septem.Core.GraphSerialize

/-!
# CanonicalSerialize — the bytes of `Seriallize` determine the graph, and the graph the bytes

`written g` is what `Seriallize` puts into its buffer.  As long as the two `int32` counts are the
real ones (`CountsFit`),

* it is `OutSize` bytes long and the call leaves the graph alone (`seriallizeAndGraph_ok`);
* it is read in one way only, so equal bytes come from equal sections (`sections_inj`);
* and reachable graphs with the same contents are the same graph (`SameContents.eq`), whatever
  histories they have.
-/

namespace Septem

open Cxx

namespace TDirectedGraph

variable {VT ET : Type} [TriviallyCopyable VT] [TriviallyCopyable ET] [Inhabited ET]

/-! ## The graph during the call -/

/-- The loop over the edges together with the graph that `EdgeMap[key]` works on. -/
def writeEdges (edgekeys : List UInt64) :
    Nat → Nat → TDirectedGraph VT ET → WriteCursor → Checked (WriteCursor × TDirectedGraph VT ET)
  | 0, _, this, cur => pure (cur, this)
  | n + 1, i, this, cur => do
      let key ← elementAt edgekeys i
      let (edge, this) := this.getEdgeByKey key
      let cur ← put (toBytes edge) cur
      writeEdges edgekeys n (i + 1) this cur

/-- `writeSections` with the graph it leaves. -/
def writeSectionsAndGraph (this : TDirectedGraph VT ET) (outBuffer : Bytes) :
    Checked (Bytes × TDirectedGraph VT ET) := do
  let cur ← put (toBytes this.bDirectSelf) (outBuffer, 0)
  let vertexCount := this.vertexCount
  let cur ← put (toBytes vertexCount) cur
  let cur ← putLoop (fun i => do
    let vertex ← elementAt this.vertexArray i
    return toBytes vertex) vertexCount.toInt.toNat 0 cur
  let (edgeCount, edgekeys) := this.getEdgeKeys
  let cur ← put (toBytes edgeCount) cur
  let cur ← putLoop (fun i => do
    let key ← elementAt edgekeys i
    return toBytes key) edgeCount.toInt.toNat 0 cur
  let (cur, this) ← writeEdges edgekeys edgeCount.toInt.toNat 0 this cur
  return (cur.1, this)

/-- `Seriallize(OutBuffer, OutSize, bAllocBuffer)` with the graph it leaves. -/
def seriallizeAndGraph (this : TDirectedGraph VT ET) (outBuffer : Bytes) (bAllocBuffer : Bool) :
    Checked (Bytes × UInt64 × TDirectedGraph VT ET) :=
  if bAllocBuffer then do
    let (_, graph) ← this.writeSectionsAndGraph (List.replicate this.outSize.toNat 0)
    return (outBuffer, this.outSize, graph)
  else do
    let (outBuffer, graph) ← this.writeSectionsAndGraph outBuffer
    return (outBuffer, this.outSize, graph)

omit [TriviallyCopyable VT] [TriviallyCopyable ET] in
/-- `operator[]` inserts nothing for a key of the map. -/
theorem getEdgeByKey_of_mem {this : TDirectedGraph VT ET} {key : UInt64}
    (h : key ∈ this.edgeMap.keys) :
    ∃ edge, this.edgeMap[key]? = some edge ∧ this.getEdgeByKey key = (edge, this) := by
  have hsome : this.edgeMap[key]?.isSome = true := by
    rw [← Std.ExtTreeMap.contains_eq_isSome_getElem?, ← Std.ExtTreeMap.mem_iff_contains]
    exact Std.ExtTreeMap.mem_keys.1 h
  rcases Option.isSome_iff_exists.1 hsome with ⟨edge, hedge⟩
  refine ⟨edge, hedge, ?_⟩
  simp only [getEdgeByKey, hedge]

omit [TriviallyCopyable VT] in
theorem writeEdges_eq (this : TDirectedGraph VT ET) (n i : Nat) (cur : WriteCursor) :
    writeEdges this.edgeMap.keys n i this cur =
      putLoop (fun i => do
        let key ← elementAt this.edgeMap.keys i
        return toBytes (this.getEdgeByKey key).1) n i cur >>= fun cur => pure (cur, this) := by
  induction n generalizing i cur with
  | zero => rfl
  | succ n ih =>
      cases hkey : elementAt this.edgeMap.keys (i : Int) with
      | error e => simp [writeEdges, putLoop, hkey]
      | ok key =>
          have hmem : key ∈ this.edgeMap.keys := List.mem_of_getElem? (elementAt_eq_ok.1 hkey)
          rcases getEdgeByKey_of_mem hmem with ⟨edge, -, hget⟩
          simp only [writeEdges, putLoop, hkey, hget, ih, Checked.ok_bind, Checked.pure_eq_ok,
            bind_assoc]

/-- The call leaves the graph as it is. -/
theorem writeSectionsAndGraph_eq (this : TDirectedGraph VT ET) (outBuffer : Bytes) :
    this.writeSectionsAndGraph outBuffer =
      this.writeSections outBuffer >>= fun bytes => pure (bytes, this) := by
  have hcount : this.getEdgeKeys = (this.edgeCount, this.edgeMap.keys) := rfl
  simp only [writeSectionsAndGraph, writeSections, hcount, writeEdges_eq, bind_assoc, pure_bind]

/-! ## What is written -/

/-- The bytes `Seriallize` puts into the buffer. -/
def written (this : TDirectedGraph VT ET) : Bytes :=
  this.sections.flatten

theorem writeSections_ok (this : TDirectedGraph VT ET) {outBuffer : Bytes}
    (h : this.written.length ≤ outBuffer.length) :
    this.writeSections outBuffer = .ok (this.written ++ outBuffer.drop this.written.length) := by
  have hput : putAll this.sections ([] ++ outBuffer, ([] : Bytes).length) =
      .ok (([] ++ this.sections.flatten) ++ outBuffer.drop this.sections.flatten.length,
        ([] ++ this.sections.flatten).length) := putAll_append h
  simp only [List.nil_append, List.length_nil] at hput
  rw [writeSections_eq, hput]
  rfl

theorem written_eq (this : TDirectedGraph VT ET) :
    this.written = toBytes this.bDirectSelf ++ (toBytes this.vertexCount ++
      (this.vertexSection.flatMap toBytes ++ (toBytes this.edgeCount ++
        (this.keySection.flatMap toBytes ++ this.edgeSection.flatMap toBytes)))) := by
  simp [written, sections, List.flatMap_def]

/-- The two counts are the numbers of vertices and edges. -/
structure CountsFit (this : TDirectedGraph VT ET) : Prop where
  vertices : this.vertexArray.length < 2 ^ 31
  edges : this.edgeMap.size < 2 ^ 31

section CountsFit

variable {this : TDirectedGraph VT ET}

omit [TriviallyCopyable VT] [TriviallyCopyable ET] [Inhabited ET] in
theorem CountsFit.vertexSection_eq (h : this.CountsFit) :
    this.vertexSection = this.vertexArray := by
  rw [vertexSection, vertexCount, Int32.toInt_ofNat_of_lt h.vertices, Int.toNat_natCast,
    List.take_length]

omit [TriviallyCopyable VT] [TriviallyCopyable ET] [Inhabited ET] in
theorem CountsFit.keySection_eq (h : this.CountsFit) : this.keySection = this.edgeMap.keys := by
  rw [keySection, edgeCount, Int32.toInt_ofNat_of_lt h.edges, Int.toNat_natCast,
    ← Std.ExtTreeMap.length_keys, List.take_length]

theorem CountsFit.length_written (h : this.CountsFit) :
    this.written.length = sizeof Bool + sizeof Int32 +
      sizeof (TVertex VT) * this.vertexArray.length + sizeof Int32 +
      sizeof UInt64 * this.edgeMap.size + sizeof (TEdge ET) * this.edgeMap.size := by
  have hedge : this.edgeSection.length = this.edgeMap.size := by
    rw [edgeSection, List.length_map, h.keySection_eq, Std.ExtTreeMap.length_keys]
  rw [written_eq]
  simp only [List.length_append, length_toBytes, length_flatMap_toBytes, h.vertexSection_eq,
    h.keySection_eq, hedge, Std.ExtTreeMap.length_keys]
  rw [Nat.mul_comm this.vertexArray.length, Nat.mul_comm this.edgeMap.size (sizeof UInt64),
    Nat.mul_comm this.edgeMap.size (sizeof (TEdge ET))]
  simp only [Nat.add_assoc]

/-- `OutSize` is the number of bytes written. -/
theorem CountsFit.outSize_eq (h : this.CountsFit) :
    this.outSize = UInt64.ofNat this.written.length := by
  rw [h.length_written]
  simp only [outSize, vertexCount, edgeCount, toUInt64_ofNat h.vertices, toUInt64_ofNat h.edges,
    UInt64.ofNat_add, UInt64.ofNat_mul]

end CountsFit

/-! ## Reading it in one way only -/

theorem sections_inj {g g' : TDirectedGraph VT ET} (h : g.written = g'.written) :
    g.bDirectSelf = g'.bDirectSelf ∧ g.vertexSection = g'.vertexSection ∧
      g.keySection = g'.keySection ∧ g.edgeSection = g'.edgeSection := by
  rw [written_eq, written_eq] at h
  rcases toBytes_append_inj h with ⟨hflag, h⟩
  rcases toBytes_append_inj h with ⟨hvertexCount, h⟩
  -- Equal counts make the sections behind them equally long.
  have hvertexLength : g.vertexSection.length = g'.vertexSection.length := by
    rw [length_vertexSection, length_vertexSection, hvertexCount]
  rcases flatMap_toBytes_append_inj hvertexLength h with ⟨hvertices, h⟩
  rcases toBytes_append_inj h with ⟨hedgeCount, h⟩
  -- The edge count does the same for keys and edges.
  have hkeyLength : g.keySection.length = g'.keySection.length := by
    rw [length_keySection, length_keySection, hedgeCount]
  rcases flatMap_toBytes_append_inj hkeyLength h with ⟨hkeys, h⟩
  have hedgeLength : g.edgeSection.length = g'.edgeSection.length := by
    rw [edgeSection, edgeSection, List.length_map, List.length_map, hkeyLength]
  rw [← List.append_nil (g.edgeSection.flatMap toBytes),
    ← List.append_nil (g'.edgeSection.flatMap toBytes)] at h
  exact ⟨hflag, hvertices, hkeys, (flatMap_toBytes_append_inj hedgeLength h).1⟩

omit [TriviallyCopyable VT] [TriviallyCopyable ET] in
/-- The same keys with the same edges make the same map. -/
theorem edgeMap_eq_of_sections {g g' : TDirectedGraph VT ET} (hfit : g.CountsFit)
    (hfit' : g'.CountsFit) (hkeys : g.keySection = g'.keySection)
    (hedges : g.edgeSection = g'.edgeSection) : g.edgeMap = g'.edgeMap := by
  rw [edgeSection, edgeSection, ← hkeys, hfit.keySection_eq] at hedges
  rw [hfit.keySection_eq, hfit'.keySection_eq] at hkeys
  have hsame := List.map_inj_left.1 hedges
  apply Std.ExtTreeMap.ext_getElem?
  intro k
  by_cases hmem : k ∈ g.edgeMap.keys
  · -- The sections list the edges in the order of the keys.
    rcases getEdgeByKey_of_mem hmem with ⟨edge, hget, hedge⟩
    rcases getEdgeByKey_of_mem (hkeys ▸ hmem) with ⟨edge', hget', hedge'⟩
    have hvalue := hsame k hmem
    rw [hedge, hedge'] at hvalue
    rw [hget, hget']
    exact congrArg some hvalue
  · have hmem' : k ∉ g'.edgeMap.keys := hkeys ▸ hmem
    rw [Std.ExtTreeMap.mem_keys] at hmem hmem'
    rw [Std.ExtTreeMap.getElem?_eq_none hmem, Std.ExtTreeMap.getElem?_eq_none hmem']

theorem eq_of_written {g g' : TDirectedGraph VT ET} (hfit : g.CountsFit) (hfit' : g'.CountsFit)
    (h : g.written = g'.written) : g = g' := by
  rcases sections_inj h with ⟨hflag, hvertices, hkeys, hedges⟩
  rw [hfit.vertexSection_eq, hfit'.vertexSection_eq] at hvertices
  have hmap := edgeMap_eq_of_sections hfit hfit' hkeys hedges
  obtain ⟨bDirectSelf, vertexArray, edgeMap⟩ := g
  obtain ⟨bDirectSelf', vertexArray', edgeMap'⟩ := g'
  simp only at hflag hvertices hmap
  rw [hflag, hvertices, hmap]

/-! ## Histories do not matter -/

section Contents

omit [TriviallyCopyable VT] [TriviallyCopyable ET] [Inhabited ET]

variable {g g' : TDirectedGraph VT ET} {b b' : Bool}

/-- The same flag, the same vertex sequence, the same set of labelled edges. -/
structure SameContents (g g' : TDirectedGraph VT ET) : Prop where
  bDirectSelf : g.bDirectSelf = g'.bDirectSelf
  values : g.vertexArray.map TVertex.value = g'.vertexArray.map TVertex.value
  edges : ∀ edge : TEdge ET, (∃ k : UInt64, g.edgeMap[k]? = some edge) ↔
    ∃ k : UInt64, g'.edgeMap[k]? = some edge

theorem SameContents.symm (h : SameContents g g') : SameContents g' g :=
  ⟨h.bDirectSelf.symm, h.values.symm, fun edge => (h.edges edge).symm⟩

/-- The index of a vertex is its position, converted to `int32`. -/
theorem Reachable.vertexArray_eq (h : Reachable b g) :
    g.vertexArray = (g.vertexArray.map TVertex.value).mapIdx fun i value =>
      { index := Int32.ofNat i, value := value } := by
  induction h with
  | new => rfl
  | @addVertex this inVT _ ih =>
      simp only [TDirectedGraph.addVertex, List.map_append, List.map_cons, List.map_nil,
        List.mapIdx_concat, List.length_map, ← ih]
  | addEdge inEdge _ ih =>
      rw [addEdge_vertexArray]
      exact ih
  | reset _ _ => rfl

/-- An edge has its only place under its own key. -/
theorem SameContents.getElem?_eq (h : SameContents g g') (hg : g.Keyed) (hg' : g'.Keyed)
    {k : UInt64} {edge : TEdge ET} (hget : g.edgeMap[k]? = some edge) :
    g'.edgeMap[k]? = some edge := by
  rcases (h.edges edge).1 ⟨k, hget⟩ with ⟨k', hget'⟩
  rw [hg.key k edge hget, ← hg'.key k' edge hget']
  exact hget'

theorem SameContents.edgeMap_eq (h : SameContents g g') (hg : g.Keyed) (hg' : g'.Keyed) :
    g.edgeMap = g'.edgeMap := by
  apply Std.ExtTreeMap.ext_getElem?
  intro k
  cases hk : g.edgeMap[k]? with
  | some edge => exact (h.getElem?_eq hg hg' hk).symm
  | none =>
      cases hk' : g'.edgeMap[k]? with
      | none => rfl
      | some edge =>
          -- Then `g` has the edge as well, and has it under `k`.
          rw [h.symm.getElem?_eq hg' hg hk'] at hk
          cases hk

/-- Reachable graphs with the same contents are the same graph. -/
theorem SameContents.eq (h : SameContents g g') (hg : Reachable b g) (hg' : Reachable b' g') :
    g = g' := by
  have hvertices : g.vertexArray = g'.vertexArray := by
    rw [hg.vertexArray_eq, hg'.vertexArray_eq, h.values]
  have hmap := h.edgeMap_eq hg.keyed hg'.keyed
  have hflag := h.bDirectSelf
  obtain ⟨bDirectSelf, vertexArray, edgeMap⟩ := g
  obtain ⟨bDirectSelf', vertexArray', edgeMap'⟩ := g'
  simp only at hflag hvertices hmap
  rw [hflag, hvertices, hmap]

end Contents

/-! ## Canonical bytes -/

/-- A call of `Seriallize` writes exactly these bytes and leaves the graph alone. -/
structure WritesExactly (this : TDirectedGraph VT ET) (bytes : Bytes) : Prop where
  outSize : this.outSize = UInt64.ofNat bytes.length
  caller : ∀ outBuffer : Bytes, bytes.length ≤ outBuffer.length →
    this.seriallizeAndGraph outBuffer false =
      .ok (bytes ++ outBuffer.drop bytes.length, this.outSize, this)
  allocated : bytes.length < 2 ^ 64 → ∀ outBuffer : Bytes,
    this.writeSections (List.replicate this.outSize.toNat 0) = .ok bytes ∧
      this.seriallizeAndGraph outBuffer true = .ok (outBuffer, this.outSize, this)

theorem writesExactly_written {this : TDirectedGraph VT ET} (hfit : this.CountsFit) :
    this.WritesExactly this.written where
  outSize := hfit.outSize_eq
  caller outBuffer hroom := by
    simp only [seriallizeAndGraph, Bool.false_eq_true, if_false, writeSectionsAndGraph_eq,
      writeSections_ok this hroom, Checked.ok_bind, Checked.pure_eq_ok]
  allocated hsize outBuffer := by
    have hlen : (List.replicate this.outSize.toNat (0 : UInt8)).length = this.written.length := by
      rw [List.length_replicate, hfit.outSize_eq, UInt64.toNat_ofNat_of_lt' hsize]
    have hwrite : this.writeSections (List.replicate this.outSize.toNat 0) = .ok this.written := by
      rw [writeSections_ok this (Nat.le_of_eq hlen.symm), ← hlen, List.drop_length,
        List.append_nil]
    refine ⟨hwrite, ?_⟩
    simp only [seriallizeAndGraph, if_true, writeSectionsAndGraph_eq, hwrite, Checked.ok_bind,
      Checked.pure_eq_ok]

/-- Serialization is canonical and injective: reachable graphs with fewer than `2 ^ 31` vertices
and edges write the same bytes exactly when they have the same contents; the bytes are `OutSize`
many, and writing them leaves the graph as it is. -/
theorem seriallize_canonical {b b' : Bool} {g g' : TDirectedGraph VT ET} (hg : Reachable b g)
    (hg' : Reachable b' g') (hfit : g.CountsFit) (hfit' : g'.CountsFit) :
    ∃ bytes bytes' : Bytes, g.WritesExactly bytes ∧ g'.WritesExactly bytes' ∧
      (bytes = bytes' ↔ SameContents g g') := by
  refine ⟨g.written, g'.written, writesExactly_written hfit, writesExactly_written hfit', ?_⟩
  constructor
  · intro h
    rw [eq_of_written hfit hfit' h]
    exact ⟨rfl, rfl, fun _ => Iff.rfl⟩
  · intro h
    rw [h.eq hg hg']

/-- Two vertices and an edge, once with an edge in the other direction and once behind a refused
loop. -/
theorem seriallize_canonical_sample :
    let vertices : TDirectedGraph UInt8 UInt8 :=
      (({} : TDirectedGraph UInt8 UInt8).addVertex 1).addVertex 2
    let g := ((vertices.addEdge ⟨1, 0, 8⟩).2.addEdge ⟨0, 1, 7⟩).2
    let g' := (((vertices.addEdge ⟨1, 1, 9⟩).2.addEdge ⟨0, 1, 7⟩).2.addEdge ⟨1, 0, 8⟩).2
    ∃ bytes bytes' : Bytes, g.WritesExactly bytes ∧ g'.WritesExactly bytes' ∧
      (bytes = bytes' ↔ SameContents g g') := by
  intro vertices g g'
  have hvertices : Reachable false vertices := .addVertex 2 (.addVertex 1 .new)
  have hg : Reachable false g := .addEdge _ (.addEdge _ hvertices)
  have hg' : Reachable false g' := .addEdge _ (.addEdge _ (.addEdge _ hvertices))
  exact seriallize_canonical hg hg' ⟨by decide, by decide⟩ ⟨by decide, by decide⟩

/-! ## Too many vertices -/

/-- A graph of `n` vertices of value `0`. -/
def manyVertices (n : Nat) : TDirectedGraph UInt8 UInt8 :=
  (List.replicate n 0).foldl addVertex {}

theorem manyVertices_succ (n : Nat) : manyVertices (n + 1) = (manyVertices n).addVertex 0 := by
  rw [manyVertices, List.replicate_succ', List.foldl_append]
  rfl

theorem manyVertices_reachable (n : Nat) : Reachable false (manyVertices n) := by
  induction n with
  | zero => exact .new
  | succ n ih =>
      rw [manyVertices_succ]
      exact .addVertex 0 ih

theorem manyVertices_eq (n : Nat) : ∃ vertexArray : List (TVertex UInt8),
    vertexArray.length = n ∧ manyVertices n = { vertexArray := vertexArray } := by
  induction n with
  | zero => exact ⟨[], rfl, rfl⟩
  | succ n ih =>
      rcases ih with ⟨vertexArray, hlen, heq⟩
      rw [manyVertices_succ, heq]
      refine ⟨vertexArray ++ [{ index := Int32.ofNat vertexArray.length, value := 0 }], ?_, rfl⟩
      rw [List.length_append, hlen, List.length_singleton]

theorem manyVertices_sections {vertexArray : List (TVertex UInt8)}
    (h : vertexArray.length = 2 ^ 32) :
    ({ vertexArray := vertexArray } : TDirectedGraph UInt8 UInt8).sections =
      ({} : TDirectedGraph UInt8 UInt8).sections := by
  have hcount : ({ vertexArray := vertexArray } : TDirectedGraph UInt8 UInt8).vertexCount = 0 := by
    rw [vertexCount, h]
    decide
  have hvertices : ({ vertexArray := vertexArray } : TDirectedGraph UInt8 UInt8).vertexSection =
      [] := by
    rw [vertexSection, hcount]
    rfl
  rw [sections, hcount, hvertices]
  rfl

/-- With `2 ^ 32` vertices the count is `0` again: every buffer is left as the empty graph leaves
it. -/
theorem manyVertices_sameBytes :
    Reachable false (manyVertices (2 ^ 32)) ∧ Reachable false (manyVertices 0) ∧
      (∀ (outBuffer : Bytes) (bAllocBuffer : Bool),
        (manyVertices (2 ^ 32)).seriallize outBuffer bAllocBuffer =
          (manyVertices 0).seriallize outBuffer bAllocBuffer) ∧
      ¬ SameContents (manyVertices (2 ^ 32)) (manyVertices 0) := by
  rcases manyVertices_eq (2 ^ 32) with ⟨vertexArray, hlen, heq⟩
  have hempty : manyVertices 0 = {} := rfl
  refine ⟨manyVertices_reachable _, manyVertices_reachable 0, ?_, ?_⟩
  · intro outBuffer bAllocBuffer
    have hsize : ({ vertexArray := vertexArray } : TDirectedGraph UInt8 UInt8).outSize =
        ({} : TDirectedGraph UInt8 UInt8).outSize := by
      rw [outSize, vertexCount, hlen]
      rfl
    have hwrite (mem : Bytes) :
        ({ vertexArray := vertexArray } : TDirectedGraph UInt8 UInt8).writeSections mem =
          ({} : TDirectedGraph UInt8 UInt8).writeSections mem := by
      rw [writeSections_eq, writeSections_eq, manyVertices_sections hlen]
    rw [heq, hempty]
    simp only [seriallize, hsize, hwrite]
  · intro h
    have hlength := congrArg List.length h.values
    rw [heq, hempty, List.length_map, hlen] at hlength
    cases hlength

end TDirectedGraph

end Septem
