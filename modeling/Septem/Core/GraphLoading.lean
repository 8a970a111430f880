import Septem.Core.GraphSerialize
import Septem.Library.Run

/-!
# GraphLoading — `Deseriallize` on bytes of any origin

`GraphSerialize` reads back what `Seriallize` wrote; here the flag, the two counts, the keys and
the edges are whatever the bytes say.

* `deseriallize_returns` and `deseriallize_faults` settle what `Deseriallize` does on every byte
  string: it returns, it throws at a negative vertex count, or it reads past the end;
* `staysInside_iff` says for which buffers it reads nothing behind `InSize`;
* `run_wellFormed` is the invariant of the edge map that no bytes can break.
-/

namespace Septem

open Cxx

namespace TDirectedGraph

variable {VT ET : Type} [TriviallyCopyable VT] [TriviallyCopyable ET]

/-! ## Declared sizes -/

/-- The vertex count the bytes declare, behind the flag. -/
def declaredVertexCount (inBuffer : Bytes) : Int32 :=
  ofBytes (slice inBuffer 1 4)

/-- The index behind the vertices. -/
def edgeCountIndex (VT : Type) [TriviallyCopyable VT] (inBuffer : Bytes) : Nat :=
  5 + (declaredVertexCount inBuffer).toInt.toNat * sizeof (TVertex VT)

/-- The edge count the bytes declare, behind the vertices. -/
def declaredEdgeCount (VT : Type) [TriviallyCopyable VT] (inBuffer : Bytes) : Int32 :=
  ofBytes (slice inBuffer (edgeCountIndex VT inBuffer) 4)

/-- The index behind the keys. -/
def edgesIndex (VT : Type) [TriviallyCopyable VT] (inBuffer : Bytes) : Nat :=
  edgeCountIndex VT inBuffer + 4 + (declaredEdgeCount VT inBuffer).toInt.toNat * sizeof UInt64

/-- The index behind the edges. -/
def declaredSize (VT ET : Type) [TriviallyCopyable VT] [TriviallyCopyable ET]
    (inBuffer : Bytes) : Nat :=
  edgesIndex VT inBuffer + (declaredEdgeCount VT inBuffer).toInt.toNat * sizeof (TEdge ET)

/-- The bytes are there for all that is read: a negative vertex count ends the reading with an
exception, a negative edge count reads no edges. -/
structure LongEnough (VT ET : Type) [TriviallyCopyable VT] [TriviallyCopyable ET]
    (inBuffer : Bytes) : Prop where
  counts : 5 ≤ inBuffer.length
  vertices : 0 ≤ (declaredVertexCount inBuffer).toInt →
    edgeCountIndex VT inBuffer + 4 ≤ inBuffer.length
  edges : 0 ≤ (declaredVertexCount inBuffer).toInt → declaredSize VT ET inBuffer ≤ inBuffer.length

/-- Long enough for the non-negative counts it declares. -/
structure WellSized (VT ET : Type) [TriviallyCopyable VT] [TriviallyCopyable ET]
    (inBuffer : Bytes) : Prop extends LongEnough VT ET inBuffer where
  vertexCount : 0 ≤ (declaredVertexCount inBuffer).toInt
  edgeCount : 0 ≤ (declaredEdgeCount VT inBuffer).toInt

instance (inBuffer : Bytes) : Decidable (LongEnough VT ET inBuffer) :=
  decidable_of_iff
    (5 ≤ inBuffer.length ∧
      (0 ≤ (declaredVertexCount inBuffer).toInt →
        edgeCountIndex VT inBuffer + 4 ≤ inBuffer.length) ∧
      (0 ≤ (declaredVertexCount inBuffer).toInt →
        declaredSize VT ET inBuffer ≤ inBuffer.length))
    ⟨fun h => ⟨h.1, h.2.1, h.2.2⟩, fun h => ⟨h.counts, h.vertices, h.edges⟩⟩

instance (inBuffer : Bytes) : Decidable (WellSized VT ET inBuffer) :=
  decidable_of_iff
    (LongEnough VT ET inBuffer ∧ 0 ≤ (declaredVertexCount inBuffer).toInt ∧
      0 ≤ (declaredEdgeCount VT inBuffer).toInt)
    ⟨fun h => ⟨h.1, h.2.1, h.2.2⟩, fun h => ⟨h.toLongEnough, h.vertexCount, h.edgeCount⟩⟩

/-! ## The phases of loading -/

/-- The graph once the flag is read and the vertex array is resized. -/
def resized (inBuffer : Bytes) (vertexArray : List (TVertex VT)) : TDirectedGraph VT ET :=
  { bDirectSelf := ofBytes (slice inBuffer 0 1), vertexArray, edgeMap := ∅ }

/-- The loop over the vertices. -/
def loadVertices (n : Nat) (this : TDirectedGraph VT ET) (cur : ReadCursor) :
    Checked (TDirectedGraph VT ET × ReadCursor) :=
  fetchLoop (fun this (vertex : TVertex VT) => pure (this.addVertex vertex.value)) n this cur

/-- The loop over the keys. -/
def loadKeys (n : Nat) (cur : ReadCursor) : Checked (List UInt64 × ReadCursor) :=
  fetchLoop (fun edgekeys (key : UInt64) => pure (edgekeys ++ [key])) n [] cur

/-- The loop over the edges. -/
def loadEdges (n : Nat) (this : TDirectedGraph VT ET) (cur : ReadCursor) :
    Checked (TDirectedGraph VT ET × ReadCursor) :=
  fetchLoop (fun this (value : TEdge ET) => pure (this.addEdge value).2) n this cur

/-- All that follows the resizing. -/
def loadBehindCounts (inBuffer : Bytes) (this : TDirectedGraph VT ET) :
    Checked (TDirectedGraph VT ET) := do
  let (this, cur) ← loadVertices (declaredVertexCount inBuffer).toInt.toNat this (inBuffer, 5)
  let (edgeCount, cur) ← fetch Int32 cur
  let (_, cur) ← loadKeys edgeCount.toInt.toNat cur
  let (this, _) ← loadEdges edgeCount.toInt.toNat { this with edgeMap := ∅ } cur
  return this

/-- Flag and vertex count are read; what the object held before is gone. -/
theorem deseriallize_counts [Inhabited VT] (this : TDirectedGraph VT ET) {inBuffer : Bytes}
    (inSize : UInt64) (h : 5 ≤ inBuffer.length) :
    deseriallize graphClass this inBuffer inSize = (do
      let vertexArray ← resize [] (declaredVertexCount inBuffer).toInt default
      loadBehindCounts inBuffer (resized inBuffer vertexArray)) := by
  have hflag : fetch Bool (inBuffer, 0) = .ok (ofBytes (slice inBuffer 0 1), (inBuffer, 1)) :=
    fetch_ok (by change 0 + 1 ≤ _; omega)
  have hcount : fetch Int32 (inBuffer, 1) = .ok (ofBytes (slice inBuffer 1 4), (inBuffer, 5)) :=
    fetch_ok (by change 1 + 4 ≤ _; omega)
  simp only [deseriallize, hflag, hcount, Checked.ok_bind, graphClass, reset, loadBehindCounts,
    loadVertices, loadKeys, loadEdges, resized, declaredVertexCount, pure_bind]

theorem deseriallize_short [Inhabited VT] (this : TDirectedGraph VT ET) {inBuffer : Bytes}
    (inSize : UInt64) (h : ¬ 5 ≤ inBuffer.length) :
    deseriallize graphClass this inBuffer inSize = .error .outOfBounds := by
  by_cases hempty : inBuffer.length = 0
  · have hflag : fetch Bool (inBuffer, 0) = .error .outOfBounds :=
      fetch_short (by change _ < 0 + 1; omega)
    simp only [deseriallize, hflag, Checked.error_bind]
  · have hflag : fetch Bool (inBuffer, 0) = .ok (ofBytes (slice inBuffer 0 1), (inBuffer, 1)) :=
      fetch_ok (by change 0 + 1 ≤ _; omega)
    have hcount : fetch Int32 (inBuffer, 1) = .error .outOfBounds :=
      fetch_short (by change _ < 1 + 4; omega)
    simp only [deseriallize, hflag, hcount, Checked.ok_bind, Checked.error_bind]

/-! ## Well-formed edge maps -/

omit [TriviallyCopyable VT] [TriviallyCopyable ET] in
/-- Every edge is stored under its own key, joins vertices, and is a loop only where loops are
allowed. -/
structure WellFormed (this : TDirectedGraph VT ET) : Prop extends Keyed this where
  directSelf : ∀ (k : UInt64) (edge : TEdge ET), this.edgeMap[k]? = some edge →
    edge.startId ≠ edge.endId ∨ this.bDirectSelf = true

section WellFormed

omit [TriviallyCopyable VT] [TriviallyCopyable ET]

variable {this : TDirectedGraph VT ET}

theorem noEdges_wellFormed (h : this.edgeMap = ∅) : this.WellFormed := by
  have hnone (k : UInt64) : this.edgeMap[k]? = none := by
    rw [h, Std.ExtTreeMap.getElem?_empty]
  refine ⟨⟨?_, ?_⟩, ?_⟩
  all_goals
    intro k edge hedge
    rw [hnone] at hedge
    cases hedge

theorem addVertex_wellFormed (h : this.WellFormed) (inVT : VT) :
    (this.addVertex inVT).WellFormed :=
  ⟨addVertex_keyed h.toKeyed inVT, h.directSelf⟩

theorem addEdge_wellFormed (h : this.WellFormed) (edge : TEdge ET) :
    (this.addEdge edge).2.WellFormed := by
  refine ⟨addEdge_keyed h.toKeyed edge, ?_⟩
  intro k e hget
  rw [addEdge_bDirectSelf]
  by_cases hacc : this.Accepts edge
  · rw [addEdge_accepted hacc, Std.ExtTreeMap.getElem?_insert] at hget
    split at hget
    · -- The entry is the new edge, which was accepted.
      cases hget
      exact hacc.directSelf
    · exact h.directSelf k e hget
  · rw [addEdge_refused hacc] at hget
    exact h.directSelf k e hget

/-- The ends of an edge determine its entry. -/
theorem WellFormed.simple (h : this.WellFormed) {k k' : UInt64} {e e' : TEdge ET}
    (hk : this.edgeMap[k]? = some e) (hk' : this.edgeMap[k']? = some e')
    (hstart : e'.startId = e.startId) (hend : e'.endId = e.endId) : k' = k := by
  rw [h.key k e hk, h.key k' e' hk', hstart, hend]

end WellFormed

/-! ## Loading arbitrary bytes -/

section Loops

variable {mem : Bytes} {n i : Nat}

omit [TriviallyCopyable ET] in
theorem loadVertices_ok (this : TDirectedGraph VT ET)
    (h : i + n * sizeof (TVertex VT) ≤ mem.length) :
    ∃ this' : TDirectedGraph VT ET,
      loadVertices n this (mem, i) = .ok (this', (mem, i + n * sizeof (TVertex VT))) :=
  fetchLoop_ok (fun _ _ => ⟨_, rfl⟩) this h

omit [TriviallyCopyable ET] in
theorem loadVertices_short (this : TDirectedGraph VT ET) (hi : i ≤ mem.length)
    (h : mem.length < i + n * sizeof (TVertex VT)) :
    loadVertices n this (mem, i) = .error .outOfBounds :=
  fetchLoop_short (fun _ _ => ⟨_, rfl⟩) hi h

theorem loadKeys_ok (h : i + n * sizeof UInt64 ≤ mem.length) :
    ∃ edgekeys, loadKeys n (mem, i) = .ok (edgekeys, (mem, i + n * sizeof UInt64)) :=
  fetchLoop_ok (fun _ _ => ⟨_, rfl⟩) [] h

theorem loadKeys_short (hi : i ≤ mem.length) (h : mem.length < i + n * sizeof UInt64) :
    loadKeys n (mem, i) = .error .outOfBounds :=
  fetchLoop_short (fun _ _ => ⟨_, rfl⟩) hi h

omit [TriviallyCopyable VT] in
/-- Only edges that `AddEdge` accepts come in. -/
theorem loadEdges_ok {this : TDirectedGraph VT ET} (hthis : this.WellFormed)
    (h : i + n * sizeof (TEdge ET) ≤ mem.length) :
    ∃ this' : TDirectedGraph VT ET,
      loadEdges n this (mem, i) = .ok (this', (mem, i + n * sizeof (TEdge ET))) ∧
      this'.WellFormed := by
  have hbody (g : TDirectedGraph VT ET) (edge : TEdge ET) (hg : g.WellFormed) :
      ∃ g' : TDirectedGraph VT ET, (pure (g.addEdge edge).2 : Checked _) = .ok g' ∧
        g'.WellFormed := ⟨_, rfl, addEdge_wellFormed hg edge⟩
  exact fetchLoop_keeps hbody hthis h

omit [TriviallyCopyable VT] in
theorem loadEdges_short (this : TDirectedGraph VT ET) (hi : i ≤ mem.length)
    (h : mem.length < i + n * sizeof (TEdge ET)) :
    loadEdges n this (mem, i) = .error .outOfBounds :=
  fetchLoop_short (fun _ _ => ⟨_, rfl⟩) hi h

end Loops

section Loading

variable {inBuffer : Bytes}

theorem fetch_edgeCount (h : edgeCountIndex VT inBuffer + 4 ≤ inBuffer.length) :
    fetch Int32 (inBuffer, edgeCountIndex VT inBuffer) =
      .ok (declaredEdgeCount VT inBuffer, (inBuffer, edgeCountIndex VT inBuffer + 4)) :=
  fetch_ok h

theorem loadBehindCounts_returns (this : TDirectedGraph VT ET)
    (hvertices : edgeCountIndex VT inBuffer + 4 ≤ inBuffer.length)
    (hedges : declaredSize VT ET inBuffer ≤ inBuffer.length) :
    ∃ this' : TDirectedGraph VT ET,
      loadBehindCounts inBuffer this = .ok this' ∧ this'.WellFormed := by
  have hkeyRoom : edgesIndex VT inBuffer ≤ inBuffer.length := Nat.le_of_add_right_le hedges
  rcases loadVertices_ok this (Nat.le_of_add_right_le hvertices) with ⟨g, hg⟩
  rcases loadKeys_ok hkeyRoom with ⟨edgekeys, hkeys⟩
  -- The map is cleared before the edges are read, so only they matter.
  have hcleared : ({ g with edgeMap := ∅ } : TDirectedGraph VT ET).WellFormed :=
    noEdges_wellFormed rfl
  rcases loadEdges_ok hcleared hedges with ⟨g', hg', hinv⟩
  refine ⟨g', ?_, hinv⟩
  simp only [loadBehindCounts]
  rw [hg]
  simp only [Checked.ok_bind]
  rw [← edgeCountIndex, fetch_edgeCount hvertices]
  simp only [Checked.ok_bind, hkeys]
  rw [← edgesIndex]
  simp only [hg', Checked.ok_bind, Checked.pure_eq_ok]

theorem loadBehindCounts_faults (this : TDirectedGraph VT ET) (hcounts : 5 ≤ inBuffer.length)
    (h : ¬ (edgeCountIndex VT inBuffer + 4 ≤ inBuffer.length ∧
      declaredSize VT ET inBuffer ≤ inBuffer.length)) :
    loadBehindCounts inBuffer this = .error .outOfBounds := by
  by_cases hvertexRoom : 5 + (declaredVertexCount inBuffer).toInt.toNat * sizeof (TVertex VT) ≤
      inBuffer.length
  · rcases loadVertices_ok this hvertexRoom with ⟨g, hg⟩
    rw [loadBehindCounts, hg, Checked.ok_bind]
    rw [← edgeCountIndex] at hvertexRoom ⊢
    by_cases hvertices : edgeCountIndex VT inBuffer + 4 ≤ inBuffer.length
    · simp only [fetch_edgeCount hvertices, Checked.ok_bind]
      by_cases hkeyRoom : edgesIndex VT inBuffer ≤ inBuffer.length
      · -- Everything is there but the edges.
        rcases loadKeys_ok hkeyRoom with ⟨edgekeys, hkeys⟩
        have hshort : inBuffer.length < declaredSize VT ET inBuffer :=
          Nat.not_le.1 fun hedges => h ⟨hvertices, hedges⟩
        simp only [hkeys, Checked.ok_bind]
        rw [← edgesIndex, loadEdges_short _ hkeyRoom hshort, Checked.error_bind]
      · rw [loadKeys_short hvertices (Nat.not_le.1 hkeyRoom), Checked.error_bind]
    · have hcount : fetch Int32 (inBuffer, edgeCountIndex VT inBuffer) = .error .outOfBounds :=
        fetch_short (Nat.not_le.1 hvertices)
      simp only [hcount, Checked.error_bind]
  · rw [loadBehindCounts, loadVertices_short this hcounts (Nat.not_le.1 hvertexRoom),
      Checked.error_bind]

theorem declaredVertexCount_extend (h : 5 ≤ inBuffer.length) (suf : Bytes) :
    declaredVertexCount (inBuffer ++ suf) = declaredVertexCount inBuffer := by
  rw [declaredVertexCount, slice_append_left suf (show 1 + 4 ≤ inBuffer.length from h),
    declaredVertexCount]

/-- Bytes behind a long enough input change nothing. -/
theorem loadBehindCounts_extend (this : TDirectedGraph VT ET) (hcounts : 5 ≤ inBuffer.length)
    (hvertices : edgeCountIndex VT inBuffer + 4 ≤ inBuffer.length)
    (hedges : declaredSize VT ET inBuffer ≤ inBuffer.length) (suf : Bytes) :
    loadBehindCounts (inBuffer ++ suf) this = loadBehindCounts inBuffer this := by
  have hkeyRoom : edgesIndex VT inBuffer ≤ inBuffer.length := Nat.le_of_add_right_le hedges
  have hcount := fetch_edgeCount hvertices
  rcases loadVertices_ok this (Nat.le_of_add_right_le hvertices) with ⟨g, hg⟩
  rcases loadKeys_ok hkeyRoom with ⟨edgekeys, hkeys⟩
  have hcleared : ({ g with edgeMap := ∅ } : TDirectedGraph VT ET).WellFormed :=
    noEdges_wellFormed rfl
  rcases loadEdges_ok hcleared hedges with ⟨g', hg', -⟩
  -- Every phase has returned on the shorter block already.
  have hg₂ := fetchLoop_extend suf hg
  have hkeys₂ := fetchLoop_extend suf hkeys
  have hedges₂ := fetchLoop_extend suf hg'
  rw [← loadVertices, ← edgeCountIndex] at hg₂
  rw [← loadKeys, ← edgesIndex] at hkeys₂
  rw [← loadEdges] at hedges₂
  rw [← edgeCountIndex] at hg
  rw [← edgesIndex] at hkeys
  simp only [loadBehindCounts, declaredVertexCount_extend hcounts, hg₂, hg, hcount,
    fetch_extend suf hcount, hkeys₂, hkeys, hedges₂, hg', Checked.ok_bind]

end Loading

section Deseriallize

variable [Inhabited VT] {inBuffer : Bytes}

/-- A negative vertex count throws before any vertex is read. -/
theorem deseriallize_negative (this : TDirectedGraph VT ET) (inSize : UInt64)
    (hcounts : 5 ≤ inBuffer.length) (hneg : ¬ 0 ≤ (declaredVertexCount inBuffer).toInt) :
    deseriallize graphClass this inBuffer inSize = .error .lengthError := by
  rw [deseriallize_counts this inSize hcounts, resize, if_neg hneg, Checked.error_bind]

theorem deseriallize_returns (this : TDirectedGraph VT ET) (inSize : UInt64)
    (h : LongEnough VT ET inBuffer) (hcount : 0 ≤ (declaredVertexCount inBuffer).toInt) :
    ∃ this' : TDirectedGraph VT ET,
      deseriallize graphClass this inBuffer inSize = .ok this' ∧ this'.WellFormed := by
  rcases resize_ok [] hcount (default : TVertex VT) with ⟨vertexArray, hresize, -⟩
  rcases loadBehindCounts_returns (resized inBuffer vertexArray) (h.vertices hcount)
    (h.edges hcount) with ⟨this', hload, hinv⟩
  refine ⟨this', ?_, hinv⟩
  rw [deseriallize_counts this inSize h.counts, hresize, Checked.ok_bind, hload]

theorem deseriallize_faults (this : TDirectedGraph VT ET) (inSize : UInt64)
    (h : ¬ LongEnough VT ET inBuffer) :
    deseriallize graphClass this inBuffer inSize = .error .outOfBounds := by
  by_cases hcounts : 5 ≤ inBuffer.length
  · -- A negative count would make the five bytes long enough.
    have hcount : 0 ≤ (declaredVertexCount inBuffer).toInt := by
      by_contra hneg
      exact h ⟨hcounts, fun h0 => absurd h0 hneg, fun h0 => absurd h0 hneg⟩
    rcases resize_ok [] hcount (default : TVertex VT) with ⟨vertexArray, hresize, -⟩
    rw [deseriallize_counts this inSize hcounts, hresize, Checked.ok_bind]
    apply loadBehindCounts_faults _ hcounts
    rintro ⟨hvertices, hedges⟩
    exact h ⟨hcounts, fun _ => hvertices, fun _ => hedges⟩
  · exact deseriallize_short this inSize hcounts

theorem deseriallize_extend (this : TDirectedGraph VT ET) (inSize : UInt64)
    (h : LongEnough VT ET inBuffer) (suf : Bytes) :
    deseriallize graphClass this (inBuffer ++ suf) inSize =
      deseriallize graphClass this inBuffer inSize := by
  have hcounts : 5 ≤ inBuffer.length := h.counts
  have hcounts' : 5 ≤ (inBuffer ++ suf).length := by
    rw [List.length_append]
    omega
  have hflag : slice (inBuffer ++ suf) 0 1 = slice inBuffer 0 1 :=
    slice_append_left suf (by omega)
  rw [deseriallize_counts this inSize hcounts', deseriallize_counts this inSize hcounts,
    declaredVertexCount_extend hcounts]
  by_cases hcount : 0 ≤ (declaredVertexCount inBuffer).toInt
  · rcases resize_ok [] hcount (default : TVertex VT) with ⟨vertexArray, hresize, -⟩
    rw [hresize, Checked.ok_bind, Checked.ok_bind, resized, hflag, ← resized,
      loadBehindCounts_extend _ hcounts (h.vertices hcount) (h.edges hcount)]
  · -- It throws before the block matters.
    rw [resize, if_neg hcount, Checked.error_bind, Checked.error_bind]

/-! ## Reading inside the input -/

/-- `Deseriallize` reads no byte behind the first `InSize` ones: it does not notice when the block
ends there. -/
def StaysInside (this : TDirectedGraph VT ET) (inBuffer : Bytes) (inSize : UInt64) : Prop :=
  deseriallize graphClass this (inBuffer.take inSize.toNat) inSize ≠ .error .outOfBounds

theorem StaysInside.longEnough {this : TDirectedGraph VT ET} {inSize : UInt64}
    (h : this.StaysInside inBuffer inSize) : LongEnough VT ET (inBuffer.take inSize.toNat) := by
  by_contra hshort
  exact h (deseriallize_faults this inSize hshort)

/-- What it reads is then all it needs: the rest of the block changes nothing. -/
theorem StaysInside.deseriallize_take {this : TDirectedGraph VT ET} {inSize : UInt64}
    (h : this.StaysInside inBuffer inSize) :
    deseriallize graphClass this inBuffer inSize =
      deseriallize graphClass this (inBuffer.take inSize.toNat) inSize := by
  calc
    deseriallize graphClass this inBuffer inSize
        = deseriallize graphClass this
            (inBuffer.take inSize.toNat ++ inBuffer.drop inSize.toNat) inSize := by
              rw [List.take_append_drop]
    _ = deseriallize graphClass this (inBuffer.take inSize.toNat) inSize :=
          deseriallize_extend this inSize h.longEnough _

/-- `InSize` is not looked at, so only the bytes can keep the reads inside.  What lies behind them
then makes no difference. -/
theorem staysInside_iff (this : TDirectedGraph VT ET) (inBuffer : Bytes) (inSize : UInt64) :
    (this.StaysInside inBuffer inSize ↔ LongEnough VT ET (inBuffer.take inSize.toNat)) ∧
    (this.StaysInside inBuffer inSize →
      deseriallize graphClass this inBuffer inSize =
        deseriallize graphClass this (inBuffer.take inSize.toNat) inSize) := by
  refine ⟨⟨StaysInside.longEnough, ?_⟩, StaysInside.deseriallize_take⟩
  intro h hfault
  by_cases hcount : 0 ≤ (declaredVertexCount (inBuffer.take inSize.toNat)).toInt
  · rcases deseriallize_returns this inSize h hcount with ⟨this', hload, -⟩
    rw [hload] at hfault
    cases hfault
  · -- An exception is not a read.
    rw [deseriallize_negative this inSize h.counts hcount] at hfault
    cases hfault

/-- Nine bytes that declare no vertices and no edges, with others behind them. -/
theorem staysInside_iff_empty :
    StaysInside ({} : TDirectedGraph UInt8 UInt8) [0, 0, 0, 0, 0, 0, 0, 0, 0, 7, 8] 9 ∧
      deseriallize graphClass ({} : TDirectedGraph UInt8 UInt8)
          [0, 0, 0, 0, 0, 0, 0, 0, 0, 7, 8] 9 =
        deseriallize graphClass ({} : TDirectedGraph UInt8 UInt8)
          [0, 0, 0, 0, 0, 0, 0, 0, 0] 9 := by
  have h := staysInside_iff ({} : TDirectedGraph UInt8 UInt8) [0, 0, 0, 0, 0, 0, 0, 0, 0, 7, 8] 9
  have hinside := h.1.2 (by decide)
  exact ⟨hinside, h.2 hinside⟩

/-- Nine bytes that declare one vertex, which is not there. -/
def lyingBuffer : Bytes := [0, 1, 0, 0, 0, 0, 0, 0, 0]

theorem lyingBuffer_escapes :
    lyingBuffer.length = (9 : UInt64).toNat ∧
      ¬ StaysInside ({} : TDirectedGraph UInt8 UInt8) lyingBuffer 9 := by
  refine ⟨rfl, ?_⟩
  intro hinside
  exact hinside rfl

/-! ## Runs -/

end Deseriallize

/-- The operations that change a graph. -/
inductive LoadOp (VT ET : Type)
  | addVertex (inVT : VT)
  | addEdge (inEdge : TEdge ET)
  | reset
  | deseriallize (inBuffer : Bytes) (inSize : UInt64)

/-- Bytes to be loaded are long enough for what they declare. -/
def LoadOp.Allowed : LoadOp VT ET → Prop
  | .addVertex _ => True
  | .addEdge _ => True
  | .reset => True
  | .deseriallize inBuffer _ => WellSized VT ET inBuffer

variable [Inhabited VT]

def loadStep (this : TDirectedGraph VT ET) : LoadOp VT ET → Checked (TDirectedGraph VT ET)
  | .addVertex inVT => pure (this.addVertex inVT)
  | .addEdge inEdge => pure (this.addEdge inEdge).2
  | .reset => pure this.reset
  | .deseriallize inBuffer inSize => TDirectedGraph.deseriallize graphClass this inBuffer inSize

theorem loadStep_wellFormed {this : TDirectedGraph VT ET} (h : this.WellFormed)
    {op : LoadOp VT ET} (hop : op.Allowed) :
    ∃ this' : TDirectedGraph VT ET, this.loadStep op = .ok this' ∧ this'.WellFormed := by
  cases op with
  | addVertex inVT => exact ⟨_, rfl, addVertex_wellFormed h inVT⟩
  | addEdge inEdge => exact ⟨_, rfl, addEdge_wellFormed h inEdge⟩
  | reset => exact ⟨_, rfl, noEdges_wellFormed rfl⟩
  | deseriallize inBuffer inSize =>
      have hsized : WellSized VT ET inBuffer := hop
      exact deseriallize_returns this inSize hsized.toLongEnough hsized.vertexCount

/-- No bytes can load an ill-formed edge map: after every run, every entry is stored under the key
of its ends, joins vertices, is a loop only where loops are allowed, and is the only entry with its
ends. -/
theorem run_wellFormed (bDirectSelf : Bool) (ops : List (LoadOp VT ET))
    (hops : ∀ op ∈ ops, op.Allowed) :
    ∃ g : TDirectedGraph VT ET, run loadStep { bDirectSelf := bDirectSelf } ops = .ok g ∧
      ∀ (k : UInt64) (e : TEdge ET), g.edgeMap[k]? = some e →
        k = hashEdgeKey (toUInt64 e.startId) (toUInt64 e.endId) ∧
        (g.IsPosition e.startId ∧ g.IsPosition e.endId) ∧
        (g.vertexArray.length < 2 ^ 31 →
          g.isValidVertexIndex e.startId = true ∧ g.isValidVertexIndex e.endId = true) ∧
        (e.startId ≠ e.endId ∨ g.bDirectSelf = true) ∧
        ∀ (k' : UInt64) (e' : TEdge ET), g.edgeMap[k']? = some e' →
          e'.startId = e.startId → e'.endId = e.endId → k' = k := by
  have hstep (g : TDirectedGraph VT ET) (op : LoadOp VT ET) (hg : g.WellFormed)
      (hop : op.Allowed) := loadStep_wellFormed hg hop
  have hstart : ({ bDirectSelf := bDirectSelf } : TDirectedGraph VT ET).WellFormed :=
    noEdges_wellFormed rfl
  rcases run_keeps hstep hstart (along_of_forall _ hops) with ⟨g, hrun, hinv⟩
  refine ⟨g, hrun, ?_⟩
  intro k e hget
  have hends := hinv.ends k e hget
  refine ⟨hinv.key k e hget, hends, ?_, hinv.directSelf k e hget, ?_⟩
  · intro hsize
    rw [isValidVertexIndex_iff hsize, isValidVertexIndex_iff hsize]
    exact hends
  · intro k' e' hget' hstart hend
    exact hinv.simple hget hget' hstart hend

/-- Bytes that allow loops and declare two vertices, and a loop and an edge to a vertex `9` under
made-up keys. -/
def hostileBuffer : Bytes :=
  [1] ++ [2, 0, 0, 0] ++ [0, 0, 0, 0, 5] ++ [7, 0, 0, 0, 6] ++ [2, 0, 0, 0] ++
    List.replicate 16 255 ++ [1, 0, 0, 0, 1, 0, 0, 0, 3] ++ [0, 0, 0, 0, 9, 0, 0, 0, 4]

/-- The loop comes in under its own key, the other edge is refused. -/
theorem run_wellFormed_hostile :
    ∃ g : TDirectedGraph UInt8 UInt8,
      run loadStep { bDirectSelf := false } [.addVertex 1, .deseriallize hostileBuffer 53] =
        .ok g ∧
      g.edgeMap.toList = [(edgeKey 1 1, ⟨1, 1, 3⟩)] ∧ g.IsPosition 1 ∧ g.bDirectSelf = true := by
  have hsized : WellSized UInt8 UInt8 hostileBuffer := by decide
  have hallowed : ∀ op ∈ ([.addVertex 1, .deseriallize hostileBuffer 53] :
      List (LoadOp UInt8 UInt8)), op.Allowed := by
    intro op hop
    rcases List.mem_pair.1 hop with rfl | rfl
    · exact trivial
    · exact hsized
  rcases run_wellFormed false _ hallowed with ⟨g, hrun, hentries⟩
  cases hrun
  have hentry := hentries (edgeKey 1 1) ⟨1, 1, 3⟩ rfl
  exact ⟨_, rfl, by decide, hentry.2.1.1, rfl⟩

end TDirectedGraph

end Septem
