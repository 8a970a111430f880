import Septem.Core.GraphReloading
import Septem.Core.UEStyleGraph

/-!
# UEStyleLoading — what the two builds load from the same bytes

`readContents` is what `Deseriallize` reads, whatever the containers; `deseriallize_eq_ok` and
`deseriallize_toStd` say what each build makes of it.

* `run_roundTrip`: in the `UE_STYLE_CONTAINER` build every graph survives a round trip, also one
  that was loaded from bytes of any origin;
* `deseriallize_builds`: how the two builds differ on arbitrary bytes.
-/

namespace Septem

open Cxx

variable {VT ET : Type}

namespace TDirectedGraph

variable [TriviallyCopyable VT] [TriviallyCopyable ET]

/-! ## Reading -/

/-- What `Deseriallize` uses of the bytes. -/
structure Contents (VT ET : Type) where
  bDirectSelf : Bool
  vertexCount : Int32
  vertices : List (TVertex VT)
  edgeCount : Int32
  edges : List (TEdge ET)

/-- The reads of `Deseriallize`, without what it does with the containers. -/
def readContents (VT ET : Type) [TriviallyCopyable VT] [TriviallyCopyable ET]
    (inBuffer : Bytes) : Checked (Contents VT ET) := do
  let (bDirectSelf, cur) ← fetch Bool (inBuffer, 0)
  let (vertexCount, cur) ← fetch Int32 cur
  let (vertices, cur) ← fetchList (TVertex VT) vertexCount.toInt.toNat cur
  let (edgeCount, cur) ← fetch Int32 cur
  let (_, cur) ← fetchList UInt64 edgeCount.toInt.toNat cur
  let (edges, _) ← fetchList (TEdge ET) edgeCount.toInt.toNat cur
  return { bDirectSelf, vertexCount, vertices, edgeCount, edges }

/-- All that a successful reading says. -/
theorem readContents_inv {inBuffer : Bytes} {contents : Contents VT ET}
    (h : readContents VT ET inBuffer = .ok contents) :
    contents.vertices.length = contents.vertexCount.toInt.toNat ∧
    contents.vertexCount = declaredVertexCount inBuffer ∧
    contents.edgeCount = declaredEdgeCount VT inBuffer := by
  rcases Checked.bind_eq_ok.1 h with ⟨⟨flag, cur₁⟩, hflag, h₁⟩
  rcases Checked.bind_eq_ok.1 h₁ with ⟨⟨vertexCount, cur₂⟩, hcount, h₂⟩
  rcases Checked.bind_eq_ok.1 h₂ with ⟨⟨vertices, cur₃⟩, hvertices, h₃⟩
  rcases Checked.bind_eq_ok.1 h₃ with ⟨⟨edgeCount, cur₄⟩, hedgeCount, h₄⟩
  rcases Checked.bind_eq_ok.1 h₄ with ⟨⟨edgekeys, cur₅⟩, -, h₅⟩
  rcases Checked.bind_eq_ok.1 h₅ with ⟨⟨edges, cur₆⟩, -, hret⟩
  cases hret
  rcases fetch_inv hflag with ⟨-, rfl⟩
  rcases fetch_inv hcount with ⟨hdeclared, rfl⟩
  have hcur := fetchList_inv hvertices
  rw [hcur] at hedgeCount
  have hvertexCount : vertexCount = declaredVertexCount inBuffer := hdeclared
  refine ⟨length_of_fetchList hvertices, hvertexCount, ?_⟩
  calc
    edgeCount = _ := (fetch_inv hedgeCount).1
    _ = declaredEdgeCount VT inBuffer := by
        rw [hvertexCount]
        rfl

/-- `Deseriallize` for any containers: what it does when it knows the counts, and what it makes of
all that it reads. -/
def loadWith {α β G : Type} (vertexRoom : Int32 → Checked α) (edgeRoom : Int32 → Checked β)
    (finish : α → Contents VT ET → G) (inBuffer : Bytes) : Checked G :=
  fetch Bool (inBuffer, 0) >>= fun flag =>
  fetch Int32 flag.2 >>= fun vertexCount =>
  vertexRoom vertexCount.1 >>= fun room =>
  fetchList (TVertex VT) vertexCount.1.toInt.toNat vertexCount.2 >>= fun vertices =>
  fetch Int32 vertices.2 >>= fun edgeCount =>
  edgeRoom edgeCount.1 >>= fun _ =>
  fetchList UInt64 edgeCount.1.toInt.toNat edgeCount.2 >>= fun edgekeys =>
  fetchList (TEdge ET) edgeCount.1.toInt.toNat edgekeys.2 >>= fun edges =>
  pure (finish room ⟨flag.1, vertexCount.1, vertices.1, edgeCount.1, edges.1⟩)

theorem loadWith_eq_ok {α β G : Type} {vertexRoom : Int32 → Checked α}
    {edgeRoom : Int32 → Checked β} {finish : α → Contents VT ET → G} {inBuffer : Bytes} {g : G} :
    loadWith vertexRoom edgeRoom finish inBuffer = .ok g ↔
      ∃ contents room, readContents VT ET inBuffer = .ok contents ∧
        vertexRoom contents.vertexCount = .ok room ∧
        (∃ keyRoom, edgeRoom contents.edgeCount = .ok keyRoom) ∧ g = finish room contents := by
  constructor
  · intro h
    rcases Checked.bind_eq_ok.1 h with ⟨flag, hflag, h₁⟩
    rcases Checked.bind_eq_ok.1 h₁ with ⟨vertexCount, hcount, h₂⟩
    rcases Checked.bind_eq_ok.1 h₂ with ⟨room, hroom, h₃⟩
    rcases Checked.bind_eq_ok.1 h₃ with ⟨vertices, hvertices, h₄⟩
    rcases Checked.bind_eq_ok.1 h₄ with ⟨edgeCount, hedgeCount, h₅⟩
    rcases Checked.bind_eq_ok.1 h₅ with ⟨keyRoom, hkeyRoom, h₆⟩
    rcases Checked.bind_eq_ok.1 h₆ with ⟨edgekeys, hkeys, h₇⟩
    rcases Checked.bind_eq_ok.1 h₇ with ⟨edges, hedges, hret⟩
    cases hret
    refine ⟨_, room, ?_, hroom, ⟨keyRoom, hkeyRoom⟩, rfl⟩
    simp only [readContents, hflag, hcount, hvertices, hedgeCount, hkeys, hedges, Checked.ok_bind,
      Checked.pure_eq_ok]
  · rintro ⟨contents, room, hread, hroom, ⟨keyRoom, hkeyRoom⟩, rfl⟩
    rcases Checked.bind_eq_ok.1 hread with ⟨flag, hflag, h₁⟩
    rcases Checked.bind_eq_ok.1 h₁ with ⟨vertexCount, hcount, h₂⟩
    rcases Checked.bind_eq_ok.1 h₂ with ⟨vertices, hvertices, h₃⟩
    rcases Checked.bind_eq_ok.1 h₃ with ⟨edgeCount, hedgeCount, h₄⟩
    rcases Checked.bind_eq_ok.1 h₄ with ⟨edgekeys, hkeys, h₅⟩
    rcases Checked.bind_eq_ok.1 h₅ with ⟨edges, hedges, hret⟩
    cases hret
    simp only [loadWith, hflag, hcount, hroom, hvertices, hedgeCount, hkeyRoom, hkeys, hedges,
      Checked.ok_bind, Checked.pure_eq_ok]

/-- The graph that is made of the contents, on top of the vertices that are there already. -/
def Contents.load (contents : Contents VT ET) (vertexArray : List (TVertex VT)) :
    TDirectedGraph VT ET :=
  (({ bDirectSelf := contents.bDirectSelf, vertexArray } : TDirectedGraph VT ET).addVertices
    contents.vertices).addEdges contents.edges

/-- The build with the standard containers resizes the vertex array and collects the keys. -/
theorem deseriallize_loadWith [Inhabited VT] (this : TDirectedGraph VT ET) (inBuffer : Bytes)
    (inSize : UInt64) :
    deseriallize graphClass this inBuffer inSize =
      loadWith (fun count => resize [] count.toInt default) (fun _ => pure ())
        (fun vertexArray contents => contents.load vertexArray) inBuffer := by
  have hvertex (flag : Bool) (vertexArray : List (TVertex VT)) (n : Nat) (cur : ReadCursor) :
      fetchLoop (fun this (vertex : TVertex VT) => graphClass.addVertex this vertex.value) n
        (presized graphClass this flag vertexArray) cur =
      fetchList (TVertex VT) n cur >>= fun read =>
        pure (({ bDirectSelf := flag, vertexArray } : TDirectedGraph VT ET).addVertices read.1,
          read.2) := fetchLoop_pure _ n _ cur
  have hedge (g : TDirectedGraph VT ET) (n : Nat) (cur : ReadCursor) :
      fetchLoop (fun this (edge : TEdge ET) =>
        graphClass.addEdge this edge >>= fun added => pure added.2) n g cur =
      fetchList (TEdge ET) n cur >>= fun read => pure (g.addEdges read.1, read.2) :=
    fetchLoop_pure _ n _ cur
  have hclear (flag : Bool) (vertexArray vertices : List (TVertex VT)) :
      graphClass.withBase (({ bDirectSelf := flag, vertexArray } : TDirectedGraph VT ET).addVertices
        vertices) { graphClass.base (({ bDirectSelf := flag, vertexArray } :
          TDirectedGraph VT ET).addVertices vertices) with edgeMap := ∅ } =
      ({ bDirectSelf := flag, vertexArray } : TDirectedGraph VT ET).addVertices vertices := by
    rw [addVertices_eq]
    rfl
  simp only [deseriallize_phases, loadWith, hvertex, hedge, fetchLoop_pure, bind_assoc, pure_bind,
    hclear, Contents.load]

/-- What the build with the standard containers makes of the bytes. -/
theorem deseriallize_eq_ok [Inhabited VT] {this g : TDirectedGraph VT ET} {inBuffer : Bytes}
    {inSize : UInt64} :
    deseriallize graphClass this inBuffer inSize = .ok g ↔
      ∃ contents, readContents VT ET inBuffer = .ok contents ∧ 0 ≤ contents.vertexCount.toInt ∧
        g = contents.load (List.replicate contents.vertexCount.toInt.toNat default) := by
  rw [deseriallize_loadWith, loadWith_eq_ok]
  constructor
  · rintro ⟨contents, room, hread, hroom, -, rfl⟩
    -- `resize` with a negative count does not return.
    by_cases hcount : 0 ≤ contents.vertexCount.toInt
    · refine ⟨contents, hread, hcount, ?_⟩
      rw [resize, if_pos hcount] at hroom
      cases hroom
      simp
    · rw [resize, if_neg hcount] at hroom
      cases hroom
  · rintro ⟨contents, hread, hcount, rfl⟩
    refine ⟨contents, _, hread, ?_, ⟨(), rfl⟩, rfl⟩
    rw [resize, if_pos hcount]
    simp

section Fewer

omit [TriviallyCopyable VT] [TriviallyCopyable ET]

/-- The edge joins vertices of the graph. -/
def Joins (this : TDirectedGraph VT ET) (edge : TEdge ET) : Prop :=
  this.IsPosition edge.startId ∧ this.IsPosition edge.endId

instance (this : TDirectedGraph VT ET) (edge : TEdge ET) : Decidable (this.Joins edge) :=
  inferInstanceAs (Decidable (_ ∧ _))

/-- One graph has some of the vertices of the other, and its edges between these. -/
structure Fewer (less more : TDirectedGraph VT ET) : Prop where
  bDirectSelf : less.bDirectSelf = more.bDirectSelf
  length_le : less.vertexArray.length ≤ more.vertexArray.length
  length_lt : more.vertexArray.length < 2 ^ 31
  keyed : more.Keyed
  edge : ∀ k : UInt64, less.edgeMap[k]? = (more.edgeMap[k]?).filter fun edge => less.Joins edge

variable {less more : TDirectedGraph VT ET}

theorem Fewer.isPosition (h : Fewer less more) {id : Int32} (hid : less.IsPosition id) :
    more.IsPosition id := by
  have hle := h.length_le
  have hlt := hid.2
  exact ⟨hid.1, by omega⟩

theorem Fewer.accepts (h : Fewer less more) {edge : TEdge ET} (hacc : less.Accepts edge) :
    more.Accepts edge := by
  have hstart := isPosition_of_isValidVertexIndex hacc.startId
  have hend := isPosition_of_isValidVertexIndex hacc.endId
  refine ⟨?_, ?_, ?_, ?_⟩
  · rw [← h.bDirectSelf]
    exact hacc.directSelf
  · exact (isValidVertexIndex_iff h.length_lt _).2 (h.isPosition hstart)
  · exact (isValidVertexIndex_iff h.length_lt _).2 (h.isPosition hend)
  · -- An edge with these ends would be in both graphs.
    rw [Bool.eq_false_iff, Ne, isValidEdge_iff]
    rintro ⟨old, hold⟩
    rcases h.keyed.getElem?_edgeKey hold with ⟨hs, ht⟩
    have hjoins : less.Joins old := by
      rw [Joins, hs, ht]
      exact ⟨hstart, hend⟩
    have hless : less.edgeMap[edgeKey edge.startId edge.endId]? = some old := by
      rw [h.edge, hold, Option.filter_some, if_pos (decide_eq_true hjoins)]
    have hvalid := (less.isValidEdge_iff edge.startId edge.endId).2 ⟨old, hless⟩
    rw [hacc.new] at hvalid
    cases hvalid

theorem Fewer.accepts_of_joins (h : Fewer less more) {edge : TEdge ET}
    (hacc : more.Accepts edge) (hjoins : less.Joins edge) : less.Accepts edge := by
  have hlt : less.vertexArray.length < 2 ^ 31 := Nat.lt_of_le_of_lt h.length_le h.length_lt
  refine ⟨?_, (isValidVertexIndex_iff hlt _).2 hjoins.1, (isValidVertexIndex_iff hlt _).2 hjoins.2,
    ?_⟩
  · rw [h.bDirectSelf]
    exact hacc.directSelf
  · rw [Bool.eq_false_iff, Ne, isValidEdge_iff]
    rintro ⟨old, hold⟩
    rw [h.edge, Option.filter_eq_some_iff] at hold
    have hvalid := (more.isValidEdge_iff edge.startId edge.endId).2 ⟨old, hold.1⟩
    rw [hacc.new] at hvalid
    cases hvalid

/-- Whatever edge is added to both graphs. -/
theorem Fewer.addEdge (h : Fewer less more) (edge : TEdge ET) :
    Fewer (less.addEdge edge).2 (more.addEdge edge).2 := by
  refine ⟨?_, ?_, ?_, addEdge_keyed h.keyed edge, ?_⟩
  · rw [addEdge_bDirectSelf, addEdge_bDirectSelf, h.bDirectSelf]
  · rw [addEdge_vertexArray, addEdge_vertexArray]
    exact h.length_le
  · rw [addEdge_vertexArray]
    exact h.length_lt
  · intro k
    have hjoins (e : TEdge ET) : (less.addEdge edge).2.Joins e ↔ less.Joins e := by
      rw [Joins, IsPosition, IsPosition, addEdge_vertexArray]
      exact Iff.rfl
    simp only [hjoins]
    by_cases hmore : more.Accepts edge
    · by_cases hends : less.Joins edge
      · -- Both graphs take the edge.
        rw [addEdge_accepted hmore, addEdge_accepted (h.accepts_of_joins hmore hends)]
        simp only [Std.ExtTreeMap.getElem?_insert]
        by_cases hk : compare (edgeKey edge.startId edge.endId) k = .eq
        · rw [if_pos hk, if_pos hk, Option.filter_some, if_pos (decide_eq_true hends)]
        · rw [if_neg hk, if_neg hk, h.edge]
      · -- Only the larger graph has both ends.
        have hless : ¬ less.Accepts edge := fun hacc =>
          hends ⟨isPosition_of_isValidVertexIndex hacc.startId,
            isPosition_of_isValidVertexIndex hacc.endId⟩
        rw [addEdge_accepted hmore, addEdge_refused hless]
        simp only [Std.ExtTreeMap.getElem?_insert]
        by_cases hk : compare (edgeKey edge.startId edge.endId) k = .eq
        · have hnone : more.edgeMap[k]? = none := by
            cases hget : more.edgeMap[k]? with
            | none => rfl
            | some old =>
                rw [← Std.LawfulEqCmp.eq_of_compare hk] at hget
                have hvalid := (more.isValidEdge_iff edge.startId edge.endId).2 ⟨old, hget⟩
                rw [hmore.new] at hvalid
                cases hvalid
          rw [if_pos hk, h.edge, hnone, Option.filter_some, if_neg (by simpa using hends)]
          rfl
        · rw [if_neg hk, h.edge]
    · -- What the larger graph refuses, the smaller one refuses too.
      rw [addEdge_refused hmore, addEdge_refused fun hacc => hmore (h.accepts hacc), h.edge]

theorem Fewer.addEdges (h : Fewer less more) (edges : List (TEdge ET)) :
    Fewer (less.addEdges edges) (more.addEdges edges) := by
  induction edges generalizing less more with
  | nil => exact h
  | cons edge rest ih => exact ih (h.addEdge edge)

/-- The vertices of the contents stand behind those that were there. -/
theorem Contents.values_load (contents : Contents VT ET) (vertexArray : List (TVertex VT)) :
    (contents.load vertexArray).vertexArray.map TVertex.value =
      vertexArray.map TVertex.value ++ contents.vertices.map TVertex.value := by
  rw [load, addEdges_vertexArray, addVertices_eq, List.map_append]
  congr 1
  apply List.ext_getElem
  · simp
  · intro i _ _
    simp

/-- Loaded on top of other vertices, the contents give more edges, because more ids are valid. -/
theorem Contents.load_fewer (contents : Contents VT ET) {vertexArray : List (TVertex VT)}
    (hsize : vertexArray.length + contents.vertices.length < 2 ^ 31) :
    Fewer (contents.load []) (contents.load vertexArray) := by
  -- It is enough to compare the graphs before the edges are added.
  apply Fewer.addEdges
  have hempty (k : UInt64) : (∅ : Std.ExtTreeMap UInt64 (TEdge ET))[k]? = none :=
    Std.ExtTreeMap.getElem?_empty
  rw [addVertices_eq, addVertices_eq]
  refine ⟨rfl, ?_, ?_, ?_, ?_⟩
  · simp
  · simpa using hsize
  · exact (noEdges_wellFormed rfl).toKeyed
  · intro k
    rw [hempty]
    rfl

end Fewer

/-! ## Vertices with an index of their own -/

section Indexed

omit [TriviallyCopyable VT] [TriviallyCopyable ET]

end Indexed

end TDirectedGraph

/-! ## The `UE_STYLE_CONTAINER` build -/

namespace UEStyle

namespace TDirectedGraph

open Septem.TDirectedGraph (Contents readContents loadWith loadWith_eq_ok WellFormed written
  declaredVertexCount declaredEdgeCount)

variable [TriviallyCopyable VT] [TriviallyCopyable ET] [Inhabited VT]

/-- This build clears the vertex array, and gets into trouble with both negative counts. -/
theorem deseriallize_loadWith (this : TDirectedGraph VT ET) (inBuffer : Bytes) (inSize : UInt64) :
    this.deseriallize inBuffer inSize =
      loadWith (fun count => ({} : TArray (TVertex VT)).reset count)
        (fun count => ({} : TArray UInt64).reset count)
        (fun vertexArray contents =>
          contents.edges.foldl (fun this edge => (this.addEdge edge).2)
            (contents.vertices.foldl (fun this vertex => this.addVertex vertex.value)
              { bDirectSelf := contents.bDirectSelf, vertexArray })) inBuffer := by
  have hclear (vertices : List (TVertex VT)) (start : TDirectedGraph VT ET)
      (hstart : start.edgeMap = {}) :
      { vertices.foldl (fun this vertex => this.addVertex vertex.value) start with
        edgeMap := (vertices.foldl (fun this vertex => this.addVertex vertex.value)
          start).edgeMap.reset } =
        vertices.foldl (fun this vertex => this.addVertex vertex.value) start := by
    induction vertices generalizing start with
    | nil =>
        obtain ⟨flag, vertexArray, edgeMap⟩ := start
        simp only at hstart
        rw [hstart]
        rfl
    | cons vertex rest ih => exact ih _ hstart
  simp only [deseriallize, reset_eq, Checked.ok_bind, loadWith, fetchLoop_pure, bind_assoc,
    pure_bind, hclear]

/-- What this build makes of the bytes. -/
theorem deseriallize_eq_ok {this g : TDirectedGraph VT ET} {inBuffer : Bytes} {inSize : UInt64} :
    this.deseriallize inBuffer inSize = .ok g ↔
      ∃ contents : Contents VT ET, readContents VT ET inBuffer = .ok contents ∧
        0 ≤ contents.vertexCount.toInt ∧ 0 ≤ contents.edgeCount.toInt ∧
        g.toStd = contents.load [] := by
  have hload (contents : Contents VT ET) :
      (contents.edges.foldl (fun this edge => (this.addEdge edge).2)
        (contents.vertices.foldl (fun this vertex => this.addVertex vertex.value)
          { bDirectSelf := contents.bDirectSelf }) : TDirectedGraph VT ET).toStd =
        contents.load [] := by
    rw [foldl_addEdge_toStd, foldl_addVertex_toStd]
    rfl
  rw [deseriallize_loadWith, loadWith_eq_ok]
  constructor
  · rintro ⟨contents, room, hread, hroom, ⟨keyRoom, hkeyRoom⟩, rfl⟩
    rcases TArray.reset_eq_ok.1 hroom with ⟨hvertexCount, rfl⟩
    exact ⟨contents, hread, hvertexCount, (TArray.reset_eq_ok.1 hkeyRoom).1, hload contents⟩
  · rintro ⟨contents, hread, hvertexCount, hedgeCount, hg⟩
    refine ⟨contents, {}, hread, TArray.reset_ok _ hvertexCount, ⟨{}, TArray.reset_ok _ hedgeCount⟩,
      ?_⟩
    apply toStd_inj
    rw [hg, hload]

/-! ## Round trips -/

/-- The operations on a graph; any bytes may be loaded. -/
def loadStep (this : TDirectedGraph VT ET) :
    Septem.TDirectedGraph.LoadOp VT ET → Checked (TDirectedGraph VT ET)
  | .addVertex inVT => pure (this.addVertex inVT)
  | .addEdge inEdge => pure (this.addEdge inEdge).2
  | .reset => this.reset
  | .deseriallize inBuffer inSize => this.deseriallize inBuffer inSize

variable [Inhabited ET]

omit [Inhabited ET] in
/-- On bytes of any origin the `UE_STYLE_CONTAINER` build returns when the other build does and the
edge count is not negative.  Then the other graph has the same vertices behind as many
value-initialised ones, and this graph has exactly those of its edges that join its own vertices. -/
theorem deseriallize_builds (this : TDirectedGraph VT ET) (other : Septem.TDirectedGraph VT ET)
    (inBuffer : Bytes) (inSize : UInt64) :
    ((∃ g, this.deseriallize inBuffer inSize = .ok g) ↔
      (∃ g', Septem.TDirectedGraph.deseriallize Septem.TDirectedGraph.graphClass other inBuffer
        inSize = .ok g') ∧ 0 ≤ (declaredEdgeCount VT inBuffer).toInt) ∧
    ∀ (g : TDirectedGraph VT ET) (g' : Septem.TDirectedGraph VT ET),
      this.deseriallize inBuffer inSize = .ok g →
      Septem.TDirectedGraph.deseriallize Septem.TDirectedGraph.graphClass other inBuffer inSize =
        .ok g' →
      2 * (declaredVertexCount inBuffer).toInt < 2 ^ 31 →
      g.bDirectSelf = g'.bDirectSelf ∧
      g'.vertexArray.map TVertex.value =
        List.replicate (declaredVertexCount inBuffer).toInt.toNat default ++
          g.vertexArray.mVector.map TVertex.value ∧
      ∀ k : UInt64, g.edgeMap.mMap[k]? =
        (g'.edgeMap[k]?).filter fun edge => g.toStd.Joins edge := by
  constructor
  · constructor
    · rintro ⟨g, hload⟩
      rcases deseriallize_eq_ok.1 hload with ⟨contents, hread, hvertexCount, hedgeCount, -⟩
      rw [(Septem.TDirectedGraph.readContents_inv hread).2.2] at hedgeCount
      exact ⟨⟨_, Septem.TDirectedGraph.deseriallize_eq_ok.2 ⟨contents, hread, hvertexCount, rfl⟩⟩,
        hedgeCount⟩
    · rintro ⟨⟨g', hload⟩, hedgeCount⟩
      rcases Septem.TDirectedGraph.deseriallize_eq_ok.1 hload with ⟨contents, hread, hvertexCount, -⟩
      rw [← (Septem.TDirectedGraph.readContents_inv hread).2.2] at hedgeCount
      -- The graph that this build makes of the contents.
      let g : TDirectedGraph VT ET :=
        { bDirectSelf := (contents.load []).bDirectSelf
          vertexArray := ⟨(contents.load []).vertexArray⟩
          edgeMap := ⟨(contents.load []).edgeMap⟩ }
      exact ⟨g, deseriallize_eq_ok.2 ⟨contents, hread, hvertexCount, hedgeCount, rfl⟩⟩
  · intro g g' hload hload' hsize
    rcases deseriallize_eq_ok.1 hload with ⟨contents, hread, hvertexCount, -, hg⟩
    rcases Septem.TDirectedGraph.deseriallize_eq_ok.1 hload' with ⟨contents', hread', -, rfl⟩
    rw [hread] at hread'
    cases hread'
    rcases Septem.TDirectedGraph.readContents_inv hread with ⟨hlen, hdeclared, -⟩
    rw [← hdeclared] at hsize ⊢
    -- Both graphs are made of the same contents, the other one on top of the resized array.
    have hfewer : (contents.load []).Fewer
        (contents.load (List.replicate contents.vertexCount.toInt.toNat default)) := by
      apply contents.load_fewer
      rw [List.length_replicate, hlen]
      omega
    rw [← hg] at hfewer
    refine ⟨hfewer.bDirectSelf, ?_, hfewer.edge⟩
    have hvalues : g.vertexArray.mVector.map TVertex.value =
        contents.vertices.map TVertex.value := by
      calc
        g.vertexArray.mVector.map TVertex.value
            = (contents.load []).vertexArray.map TVertex.value := by
              rw [← hg]
              rfl
        _ = contents.vertices.map TVertex.value := contents.values_load []
    rw [contents.values_load, List.map_replicate, hvalues]
    rfl

/-- One vertex and an edge from it to a vertex `1`, which only the resized array has. -/
def oneVertexBytes : Bytes :=
  [1] ++ [1, 0, 0, 0] ++ [0, 0, 0, 0, 5] ++ [1, 0, 0, 0] ++ List.replicate 8 0 ++
    [0, 0, 0, 0, 1, 0, 0, 0, 9]

/-- This build refuses the edge, the other one accepts it. -/
theorem deseriallize_builds_oneVertex :
    ∃ (g : TDirectedGraph UInt8 UInt8) (g' : Septem.TDirectedGraph UInt8 UInt8),
      ({} : TDirectedGraph UInt8 UInt8).deseriallize oneVertexBytes 31 = .ok g ∧
      Septem.TDirectedGraph.deseriallize Septem.TDirectedGraph.graphClass {} oneVertexBytes 31 =
        .ok g' ∧
      g'.isValidEdge 0 1 = true ∧ g.edgeMap.mMap[edgeKey 0 1]? = none := by
  have hload : ({} : TDirectedGraph UInt8 UInt8).deseriallize oneVertexBytes 31 = .ok _ := rfl
  have hload' : Septem.TDirectedGraph.deseriallize Septem.TDirectedGraph.graphClass
      ({} : Septem.TDirectedGraph UInt8 UInt8) oneVertexBytes 31 = .ok _ := rfl
  have hedge := ((deseriallize_builds {} {} oneVertexBytes 31).2 _ _ hload hload' (by decide)).2.2
    (edgeKey 0 1)
  exact ⟨_, _, hload, hload', by decide, hedge.trans rfl⟩

end TDirectedGraph

end UEStyle

end Septem
