import Septem.Core.DirectedGraph
import Septem.Library.LabelledDigraph
import Septem.Library.Run
import Mathlib.Data.List.ProdSigma
import Mathlib.Data.List.Perm.Basic

/-!
# DirectedGraphRefinement — `TDirectedGraph` as a labelled simple digraph

The container is run next to the `LabelledDigraph` its operations describe.  `Refines` relates the
two; every operation keeps it (`step_refines`), so it holds after every run (`run_refines`), and
whatever a client can observe of the container is then read off the digraph (`Refines.observed`).
-/

namespace Septem

open Cxx

/-- The operations that may change the graph; `GetEdge` does when its key is new. -/
inductive GraphOp (VT ET : Type)
  | addVertex (inVT : VT)
  | addEdge (inEdge : TEdge ET)
  | reset
  | getEdge (inStartIndex inEndIndex : Int32)

namespace TDirectedGraph

variable {VT ET : Type} [Inhabited ET]

/-! ## Runs -/

def step (this : TDirectedGraph VT ET) : GraphOp VT ET → Checked (TDirectedGraph VT ET)
  | .addVertex inVT => pure (this.addVertex inVT)
  | .addEdge inEdge => pure (this.addEdge inEdge).2
  | .reset => pure this.reset
  | .getEdge s t => pure (this.getEdge s t).2

/-- There is room for a new vertex, and `GetEdge` is called for an edge that is there. -/
def StepAllowed (this : TDirectedGraph VT ET) : GraphOp VT ET → Prop
  | .addVertex _ => this.vertexArray.length + 1 < 2 ^ 31
  | .addEdge _ => True
  | .reset => True
  | .getEdge s t => this.isValidEdge s t = true

instance (this : TDirectedGraph VT ET) (op : GraphOp VT ET) : Decidable (this.StepAllowed op) :=
  match op with
  | .addVertex _ => inferInstanceAs (Decidable (_ < _))
  | .addEdge _ => inferInstanceAs (Decidable True)
  | .reset => inferInstanceAs (Decidable True)
  | .getEdge _ _ => inferInstanceAs (Decidable (_ = _))

/-- What an operation says about the digraph; a query says nothing. -/
def toDigraphOp : GraphOp VT ET → Option (LabelledDigraph.Op VT ET)
  | .addVertex inVT => some (.addVertex inVT)
  | .addEdge inEdge => some (.addArc inEdge.startId.toInt inEdge.endId.toInt inEdge.weight)
  | .reset => some .clear
  | .getEdge _ _ => none

/-- The digraph that a run builds: its values are those added since the last `Reset`, its arcs the
edges added successfully since then. -/
def digraphOf (bDirectSelf : Bool) (ops : List (GraphOp VT ET)) : LabelledDigraph VT ET :=
  LabelledDigraph.build bDirectSelf (ops.filterMap toDigraphOp)

/-! ## The refinement relation -/

omit [Inhabited ET] in
/-- The container holds exactly the digraph. -/
structure Refines (g : TDirectedGraph VT ET) (A : LabelledDigraph VT ET) : Prop where
  directSelf : g.bDirectSelf = A.loops
  vertices : g.vertexArray = A.values.mapIdx fun i value =>
    { index := Int32.ofNat i, value := value }
  size_lt : A.values.length < 2 ^ 31
  edges : ∀ (s t : Int32) (w : ET), g.edgeMap[edgeKey s t]? = some ⟨s, t, w⟩ ↔
    ((s.toInt, t.toInt), w) ∈ A.arcs
  keyed : g.Keyed

section Refines

omit [Inhabited ET]

variable {g : TDirectedGraph VT ET} {A : LabelledDigraph VT ET}

theorem Refines.length_eq (h : Refines g A) : g.vertexArray.length = A.values.length := by
  rw [h.vertices, List.length_mapIdx]

theorem Refines.isValidVertexIndex_iff (h : Refines g A) (id : Int32) :
    g.isValidVertexIndex id = true ↔ A.IsVertex id.toInt := by
  have hsize : g.vertexArray.length < 2 ^ 31 := h.length_eq ▸ h.size_lt
  rw [TDirectedGraph.isValidVertexIndex_iff hsize, IsPosition, h.length_eq]
  exact Iff.rfl

/-- Also for ids that are negative or out of range. -/
theorem Refines.isValidEdge_iff (h : Refines g A) (s t : Int32) :
    g.isValidEdge s t = true ↔ A.HasArc s.toInt t.toInt := by
  rw [TDirectedGraph.isValidEdge_iff, LabelledDigraph.hasArc_iff]
  constructor
  · rintro ⟨edge, hedge⟩
    -- The edge found under this key is the edge between these ids.
    obtain ⟨startId, endId, w⟩ := edge
    obtain ⟨rfl, rfl⟩ := h.keyed.getElem?_edgeKey hedge
    exact ⟨w, (h.edges _ _ w).1 hedge⟩
  · rintro ⟨w, hw⟩
    exact ⟨_, (h.edges s t w).2 hw⟩

theorem Refines.accepts_iff (h : Refines g A) (edge : TEdge ET) :
    g.Accepts edge ↔ A.Admissible edge.startId.toInt edge.endId.toInt := by
  have hne : edge.startId ≠ edge.endId ↔ edge.startId.toInt ≠ edge.endId.toInt :=
    not_congr Int32.toInt_inj.symm
  have hnew : g.isValidEdge edge.startId edge.endId = false ↔
      ¬ A.HasArc edge.startId.toInt edge.endId.toInt := by
    rw [← h.isValidEdge_iff, Bool.not_eq_true]
  constructor
  · intro hacc
    refine ⟨⟨(h.isValidVertexIndex_iff _).1 hacc.startId,
      (h.isValidVertexIndex_iff _).1 hacc.endId⟩, ?_, hnew.1 hacc.new⟩
    rw [← hne, ← h.directSelf]
    exact hacc.directSelf
  · rintro ⟨⟨hstart, hend⟩, hself, harc⟩
    rw [← hne, ← h.directSelf] at hself
    exact ⟨hself, (h.isValidVertexIndex_iff _).2 hstart, (h.isValidVertexIndex_iff _).2 hend,
      hnew.2 harc⟩

/-! ## Every operation keeps it -/

theorem refines_empty (bDirectSelf : Bool) :
    Refines ({ bDirectSelf := bDirectSelf } : TDirectedGraph VT ET)
      (LabelledDigraph.empty bDirectSelf) where
  directSelf := rfl
  vertices := rfl
  size_lt := by simp [LabelledDigraph.empty]
  edges s t w := by simp [LabelledDigraph.empty]
  keyed := new_keyed bDirectSelf

theorem Refines.addVertex (h : Refines g A) (hroom : A.values.length + 1 < 2 ^ 31) (inVT : VT) :
    Refines (g.addVertex inVT) (A.addVertex inVT) where
  directSelf := h.directSelf
  vertices := by
    simp only [TDirectedGraph.addVertex, LabelledDigraph.addVertex, List.mapIdx_concat,
      h.length_eq, ← h.vertices]
  size_lt := by
    simpa only [LabelledDigraph.addVertex, List.length_append, List.length_singleton] using hroom
  edges := h.edges
  keyed := addVertex_keyed h.keyed inVT

theorem Refines.addEdge (h : Refines g A) (edge : TEdge ET) :
    Refines (g.addEdge edge).2 (A.addArc edge.startId.toInt edge.endId.toInt edge.weight) := by
  have hkeyed := addEdge_keyed h.keyed edge
  by_cases hacc : g.Accepts edge
  · have hadm := (h.accepts_iff edge).1 hacc
    refine ⟨?_, ?_, ?_, ?_, hkeyed⟩
    · rw [addEdge_bDirectSelf, LabelledDigraph.addArc_loops, h.directSelf]
    · rw [addEdge_vertexArray, LabelledDigraph.addArc_values, h.vertices]
    · rw [LabelledDigraph.addArc_values]
      exact h.size_lt
    · intro s t w
      rw [LabelledDigraph.addArc_arcs hadm, List.mem_append, List.mem_singleton, ← h.edges,
        addEdge_accepted hacc, Std.ExtTreeMap.getElem?_insert]
      have hstart := isPosition_of_isValidVertexIndex hacc.startId
      have hend := isPosition_of_isValidVertexIndex hacc.endId
      by_cases hst : s = edge.startId ∧ t = edge.endId
      · -- The new arc; there was none between these ids before.
        obtain ⟨rfl, rfl⟩ := hst
        have hnone : ¬ ∃ e, g.edgeMap[edgeKey edge.startId edge.endId]? = some e := by
          rw [← TDirectedGraph.isValidEdge_iff, hacc.new]
          exact Bool.false_ne_true
        rw [if_pos (Std.ReflCmp.compare_self), or_iff_right (fun hold => hnone ⟨_, hold⟩)]
        obtain ⟨startId, endId, weight⟩ := edge
        simp [eq_comm]
      · -- Another pair of ids has another key, and the map there is unchanged.
        have hkey : edgeKey edge.startId edge.endId ≠ edgeKey s t := by
          intro heq
          exact hst ((edgeKey_inj hstart.1 hend.1).1 heq.symm)
        have hcmp : compare (edgeKey edge.startId edge.endId) (edgeKey s t) ≠ .eq := by
          intro heq
          exact hkey (Std.LawfulEqCmp.eq_of_compare heq)
        rw [if_neg hcmp, or_iff_left]
        intro hpair
        simp only [Prod.mk.injEq, Int32.toInt_inj] at hpair
        exact hst hpair.1
  · have hadm : ¬ A.Admissible edge.startId.toInt edge.endId.toInt := by
      rw [← h.accepts_iff]
      exact hacc
    rw [addEdge_refused hacc, LabelledDigraph.addArc_refused hadm]
    exact h

theorem Refines.reset (h : Refines g A) : Refines g.reset A.clear := by
  have hempty : Refines g.reset (LabelledDigraph.empty g.bDirectSelf) :=
    refines_empty g.bDirectSelf
  rw [h.directSelf] at hempty
  exact hempty

end Refines

section Observations

variable {g : TDirectedGraph VT ET} {A : LabelledDigraph VT ET}

/-- `GetEdge` returns the arc that is there and leaves the container alone. -/
theorem Refines.getEdge (h : Refines g A) {s t : Int32} {w : ET}
    (harc : ((s.toInt, t.toInt), w) ∈ A.arcs) : g.getEdge s t = (⟨s, t, w⟩, g) := by
  have hget : g.edgeMap[hashEdgeKey (toUInt64 s) (toUInt64 t)]? = some ⟨s, t, w⟩ :=
    (h.edges s t w).2 harc
  simp only [TDirectedGraph.getEdge, getEdgeByKey, hget]

theorem step_refines (h : Refines g A) {op : GraphOp VT ET} (hop : g.StepAllowed op) :
    ∃ g', g.step op = .ok g' ∧ Refines g' ((toDigraphOp op).elim A A.apply) := by
  cases op with
  | addVertex inVT =>
      refine ⟨_, rfl, h.addVertex ?_ inVT⟩
      rw [← h.length_eq]
      exact hop
  | addEdge inEdge => exact ⟨_, rfl, h.addEdge inEdge⟩
  | reset => exact ⟨_, rfl, h.reset⟩
  | getEdge s t =>
      have hvalid : g.isValidEdge s t = true := hop
      -- The edge is there, so `operator[]` inserts nothing.
      rw [h.isValidEdge_iff, LabelledDigraph.hasArc_iff] at hvalid
      rcases hvalid with ⟨w, harc⟩
      refine ⟨g, ?_, h⟩
      rw [step, h.getEdge harc]
      rfl

/-- After an allowed run the container holds the digraph the run describes. -/
theorem run_refines (h : Refines g A) {ops : List (GraphOp VT ET)}
    (hops : Along step StepAllowed g ops) :
    ∃ g', run step g ops = .ok g' ∧
      Refines g' ((ops.filterMap toDigraphOp).foldl LabelledDigraph.apply A) := by
  have hstep (g : TDirectedGraph VT ET) (A : LabelledDigraph VT ET) (op : GraphOp VT ET)
      (h : Refines g A) (hop : StepAllowed g op) := step_refines h hop
  -- A query is no operation of the digraph: the filtered run passes over it.
  have hskip : (ops.filterMap toDigraphOp).foldl LabelledDigraph.apply A =
      ops.foldl (fun A op => (toDigraphOp op).elim A A.apply) A := by
    rw [List.foldl_filterMap]
    congr
    funext A op
    cases toDigraphOp op with
    | none => rfl
    | some absOp => rfl
  rw [hskip]
  exact run_simulates hstep h hops

/-! ## Keys -/

omit [Inhabited ET] in
/-- The ends of the stored edges, in the order of the map. -/
def endPairs (g : TDirectedGraph VT ET) : List (Int32 × Int32) :=
  g.edgeMap.toList.map fun entry => (entry.2.startId, entry.2.endId)

omit [Inhabited ET]

theorem Refines.keys_eq (h : Refines g A) :
    g.getEdgeKeys.2 = g.endPairs.map fun ends => edgeKey ends.1 ends.2 := by
  rw [getEdgeKeys, endPairs, List.map_map, ← Std.ExtTreeMap.map_fst_toList_eq_keys]
  apply List.map_congr_left
  intro entry hentry
  exact h.keyed.key _ _ (Std.ExtTreeMap.mem_toList_iff_getElem?_eq_some.1 hentry)

/-- The keys ascend strictly. -/
theorem getEdgeKeys_pairwise (g : TDirectedGraph VT ET) : g.getEdgeKeys.2.Pairwise (· < ·) := by
  have hordered : g.edgeMap.keys.Pairwise fun a b => compare a b = .lt :=
    Std.ExtTreeMap.ordered_keys
  exact hordered.imp Std.compare_eq_lt.1

/-- Hence the pairs of ids ascend lexicographically. -/
theorem Refines.endPairs_pairwise (h : Refines g A) :
    g.endPairs.Pairwise fun p q => p.1 < q.1 ∨ (p.1 = q.1 ∧ p.2 < q.2) := by
  have hkeys := g.getEdgeKeys_pairwise
  rw [h.keys_eq, List.pairwise_map] at hkeys
  refine hkeys.imp_of_mem ?_
  intro p q hp hq hlt
  rcases List.mem_map.1 hp with ⟨entry, hentry, rfl⟩
  rcases List.mem_map.1 hq with ⟨entry', hentry', rfl⟩
  have hends := h.keyed.ends _ _ (Std.ExtTreeMap.mem_toList_iff_getElem?_eq_some.1 hentry)
  have hends' := h.keyed.ends _ _ (Std.ExtTreeMap.mem_toList_iff_getElem?_eq_some.1 hentry')
  exact (edgeKey_lt_iff hends.1.1 hends.2.1 hends'.1.1 hends'.2.1).1 hlt

/-- A vertex name is the value of an id. -/
theorem Refines.exists_id (h : Refines g A) {v : Int} (hv : A.IsVertex v) :
    ∃ id : Int32, id.toInt = v := by
  refine ⟨Int32.ofInt v, Int32.toInt_ofInt_of_le ?_ ?_⟩
  · have := hv.1
    omega
  · have := hv.2
    have := h.size_lt
    omega

/-- The pairs of ids are the arcs of the digraph. -/
theorem Refines.endPairs_perm (h : Refines g A) :
    (g.endPairs.map fun ends => (ends.1.toInt, ends.2.toInt)).Perm (A.arcs.map Prod.fst) := by
  have hnodup : (g.endPairs.map fun ends => (ends.1.toInt, ends.2.toInt)).Nodup := by
    refine List.Nodup.map ?_ (h.endPairs_pairwise.imp ?_)
    · intro p q hpq
      rw [Prod.mk.injEq, Int32.toInt_inj, Int32.toInt_inj] at hpq
      exact Prod.ext hpq.1 hpq.2
    · rintro p q hlt rfl
      rcases hlt with hlt | ⟨-, hlt⟩
      · exact Int32.lt_irrefl hlt
      · exact Int32.lt_irrefl hlt
  -- Two lists without repetitions are permutations of each other if they have the same members.
  refine (List.perm_ext_iff_of_nodup hnodup A.simple).2 ?_
  rintro ⟨a, b⟩
  constructor
  · intro hmem
    rcases List.mem_map.1 hmem with ⟨ends, hends, heq⟩
    rcases List.mem_map.1 hends with ⟨⟨k, startId, endId, w⟩, hentry, rfl⟩
    have hget := Std.ExtTreeMap.mem_toList_iff_getElem?_eq_some.1 hentry
    rw [h.keyed.key _ _ hget] at hget
    cases heq
    exact List.mem_map.2 ⟨_, (h.edges startId endId w).1 hget, rfl⟩
  · intro hmem
    rcases LabelledDigraph.hasArc_iff.1 hmem with ⟨w, harc⟩
    have hends := A.ends _ harc
    -- The ends of an arc are vertices, so ids name them.
    rcases h.exists_id hends.1 with ⟨s, rfl⟩
    rcases h.exists_id hends.2 with ⟨t, rfl⟩
    have hget := (h.edges s t w).2 harc
    have hentry := Std.ExtTreeMap.mem_toList_iff_getElem?_eq_some.2 hget
    exact List.mem_map.2 ⟨(s, t), List.mem_map.2 ⟨_, hentry, rfl⟩, rfl⟩

theorem Refines.edgeSize_eq (h : Refines g A) : g.edgeSize = A.arcs.length := by
  have hlen := h.endPairs_perm.length_eq
  rw [List.length_map, List.length_map, endPairs, List.length_map,
    Std.ExtTreeMap.length_toList] at hlen
  exact hlen

end Observations

/-! ## What a client observes -/

/-- The container answers every call as the digraph prescribes. -/
structure Observed (g : TDirectedGraph VT ET) (A : LabelledDigraph VT ET) : Prop where
  /-- the vertices added, in order, each with its position -/
  length : g.vertexArray.length = A.values.length
  vertex : ∀ (i : Nat) (value : VT), A.values[i]? = some value →
    ∃ vertex, g.vertexArray[i]? = some vertex ∧ vertex.index.toInt = i ∧ vertex.value = value
  addEdge : ∀ edge : TEdge ET, (g.addEdge edge).1 = true ↔
    A.Admissible edge.startId.toInt edge.endId.toInt
  refused : ∀ edge : TEdge ET, (g.addEdge edge).1 = false → (g.addEdge edge).2 = g
  isValidEdge : ∀ s t : Int32, g.isValidEdge s t = true ↔ A.HasArc s.toInt t.toInt
  getEdge : ∀ (s t : Int32) (w : ET), ((s.toInt, t.toInt), w) ∈ A.arcs →
    g.getEdge s t = (⟨s, t, w⟩, g)
  edgeSize : g.edgeSize = A.arcs.length
  edgeCount : g.edgeCount = Int32.ofNat A.arcs.length
  keysAscend : g.getEdgeKeys.2.Pairwise (· < ·)
  /-- the keys are those of the arcs, in lexicographic order of the ends -/
  keys : ∃ ends : List (Int32 × Int32),
    g.getEdgeKeys.2 = ends.map (fun p => edgeKey p.1 p.2) ∧
    ends.Pairwise (fun p q => p.1 < q.1 ∨ (p.1 = q.1 ∧ p.2 < q.2)) ∧
    (ends.map fun p => (p.1.toInt, p.2.toInt)).Perm (A.arcs.map Prod.fst)

theorem Refines.observed {g : TDirectedGraph VT ET} {A : LabelledDigraph VT ET}
    (h : Refines g A) : Observed g A where
  length := h.length_eq
  vertex i value hvalue := by
    have hlt : i < 2 ^ 31 := by
      have := (List.getElem?_eq_some_iff.1 hvalue).1
      have := h.size_lt
      omega
    refine ⟨{ index := Int32.ofNat i, value := value }, ?_, Int32.toInt_ofNat_of_lt hlt, rfl⟩
    rw [h.vertices, List.getElem?_mapIdx, hvalue]
    rfl
  addEdge edge := addEdge_fst_iff.trans (h.accepts_iff edge)
  refused edge hrefused := by
    have hnot : ¬ g.Accepts edge := by
      rw [← addEdge_fst_iff, hrefused]
      exact Bool.false_ne_true
    rw [addEdge_refused hnot]
  isValidEdge := h.isValidEdge_iff
  getEdge _ _ _ := h.getEdge
  edgeSize := h.edgeSize_eq
  edgeCount := by
    rw [edgeCount, ← h.edgeSize_eq]
    rfl
  keysAscend := g.getEdgeKeys_pairwise
  keys := ⟨g.endPairs, h.keys_eq, h.endPairs_pairwise, h.endPairs_perm⟩

/-- Every allowed run from the constructed graph ends in a graph that answers as the digraph the
run describes; the edge count is the number of arcs converted to `int32`. -/
theorem run_observed (bDirectSelf : Bool) (ops : List (GraphOp VT ET))
    (hops : Along step StepAllowed { bDirectSelf := bDirectSelf } ops) :
    ∃ g, run step { bDirectSelf := bDirectSelf } ops = .ok g ∧
      Observed g (digraphOf bDirectSelf ops) := by
  rcases run_refines (refines_empty bDirectSelf) hops with ⟨g, hrun, hg⟩
  exact ⟨g, hrun, hg.observed⟩

/-- Two vertices, an edge, a second add of it, a query and a reset. -/
theorem run_observed_sample :
    ∃ g : TDirectedGraph Bool UInt8,
      run step { bDirectSelf := false } [.addVertex true, .addVertex false, .addEdge ⟨0, 1, 7⟩,
        .addEdge ⟨0, 1, 8⟩, .getEdge 0 1] = .ok g ∧
      Observed g (digraphOf false [.addVertex true, .addVertex false, .addEdge ⟨0, 1, 7⟩,
        .addEdge ⟨0, 1, 8⟩, .getEdge 0 1]) := by
  exact run_observed false _ (by decide)

/-! ## Large graphs -/

omit [Inhabited ET] in
/-- Adding vertices and then edges describes the digraph with these vertices and arcs. -/
theorem digraphOf_arcs (values : List VT) (edges : List (TEdge ET))
    (hends : ∀ e ∈ edges, (0 ≤ e.startId.toInt ∧ e.startId.toInt < values.length) ∧
      (0 ≤ e.endId.toInt ∧ e.endId.toInt < values.length))
    (hloop : ∀ e ∈ edges, e.startId.toInt ≠ e.endId.toInt)
    (hnodup : (edges.map fun e => (e.startId.toInt, e.endId.toInt)).Nodup) :
    (digraphOf false (values.map .addVertex ++ edges.map .addEdge)).arcs =
      edges.map fun e => ((e.startId.toInt, e.endId.toInt), e.weight) := by
  let A : LabelledDigraph VT ET := values.foldl LabelledDigraph.addVertex (.empty false)
  have hA : A.values = values ∧ A.arcs = [] :=
    LabelledDigraph.foldl_addVertex values (.empty false)
  have hbuild : digraphOf false (values.map .addVertex ++ edges.map .addEdge) =
      (edges.map fun e => ((e.startId.toInt, e.endId.toInt), e.weight)).foldl
        (fun A a => A.addArc a.1.1 a.1.2 a.2) A := by
    simp only [digraphOf, LabelledDigraph.build, List.filterMap_append, List.filterMap_map,
      List.foldl_append, List.foldl_map, Function.comp_def, toDigraphOp, List.filterMap_eq_map']
    rfl
  rw [hbuild, LabelledDigraph.foldl_addArc, hA.2, List.nil_append]
  · intro a ha
    rcases List.mem_map.1 ha with ⟨e, he, rfl⟩
    rw [LabelledDigraph.IsVertex, LabelledDigraph.IsVertex, hA.1]
    exact hends e he
  · intro a ha
    rcases List.mem_map.1 ha with ⟨e, he, rfl⟩
    exact hloop e he
  · rw [hA.2, List.nil_append, List.map_map]
    exact hnodup

theorem allowed_addEdges (edges : List (TEdge ET)) (g : TDirectedGraph VT ET) :
    Along step StepAllowed g (edges.map .addEdge) := by
  induction edges generalizing g with
  | nil => trivial
  | cons edge rest ih => exact ⟨trivial, fun g' _ => ih g'⟩

/-- Vertices that fit into an `int32` count may be added, and any edges after them. -/
theorem allowed_build (values : List VT) (edges : List (TEdge ET)) (g : TDirectedGraph VT ET)
    (hsize : g.vertexArray.length + values.length < 2 ^ 31) :
    Along step StepAllowed g (values.map .addVertex ++ edges.map .addEdge) := by
  induction values generalizing g with
  | nil => exact allowed_addEdges edges g
  | cons value rest ih =>
      rw [List.length_cons] at hsize
      have hroom : g.StepAllowed (.addVertex value) := by
        rw [StepAllowed]
        omega
      refine ⟨hroom, fun g' hg' => ih g' ?_⟩
      cases hg'
      simp only [addVertex, List.length_append, List.length_singleton]
      omega

/-- All edges from the first `m` to the next `n` vertices. -/
def bipartiteEdges (m n : Nat) : List (TEdge Unit) :=
  (List.range m ×ˢ List.range n).map fun p =>
    { startId := Int32.ofNat p.1, endId := Int32.ofNat (m + p.2), weight := () }

def bipartite (m n : Nat) : List (GraphOp Unit Unit) :=
  (List.replicate (m + n) ()).map .addVertex ++ (bipartiteEdges m n).map .addEdge

theorem mem_bipartiteEdges {m n : Nat} (hsize : m + n < 2 ^ 31) {e : TEdge Unit}
    (he : e ∈ bipartiteEdges m n) :
    ∃ i j : Nat, i < m ∧ j < n ∧ e.startId.toInt = i ∧ e.endId.toInt = m + j := by
  rcases List.mem_map.1 he with ⟨⟨i, j⟩, hmem, rfl⟩
  rcases List.mem_product.1 hmem with ⟨hi, hj⟩
  rw [List.mem_range] at hi hj
  refine ⟨i, j, hi, hj, Int32.toInt_ofNat_of_lt (by omega), ?_⟩
  rw [Int32.toInt_ofNat_of_lt (by omega)]
  omega

theorem bipartite_arcs {m n : Nat} (hsize : m + n < 2 ^ 31) :
    (digraphOf false (bipartite m n)).arcs.length = m * n := by
  have hlen : (List.replicate (m + n) ()).length = m + n := List.length_replicate
  rw [bipartite, digraphOf_arcs, List.length_map, bipartiteEdges, List.length_map,
    List.length_product, List.length_range, List.length_range]
  · intro e he
    rcases mem_bipartiteEdges hsize he with ⟨i, j, hi, hj, hstart, hend⟩
    rw [hstart, hend, hlen]
    omega
  · intro e he
    rcases mem_bipartiteEdges hsize he with ⟨i, j, hi, hj, hstart, hend⟩
    rw [hstart, hend]
    omega
  · rw [bipartiteEdges, List.map_map]
    -- Start and end ids determine the two numbers, since none of them is wrapped.
    refine List.Nodup.map_on ?_ (List.Nodup.product List.nodup_range List.nodup_range)
    rintro ⟨i, j⟩ hij ⟨i', j'⟩ hij' heq
    have hi := List.mem_range.1 (List.mem_product.1 hij).1
    have hj := List.mem_range.1 (List.mem_product.1 hij).2
    have hi' := List.mem_range.1 (List.mem_product.1 hij').1
    have hj' := List.mem_range.1 (List.mem_product.1 hij').2
    simp only [Function.comp_apply, Prod.mk.injEq] at heq
    rw [Int32.toInt_ofNat_of_lt (by omega), Int32.toInt_ofNat_of_lt (by omega),
      Int32.toInt_ofNat_of_lt (by omega), Int32.toInt_ofNat_of_lt (by omega)] at heq
    exact Prod.ext (by omega) (by omega)

/-- With `2 ^ 16 + 2 ^ 15` vertices there can be `2 ^ 31` edges; `EdgeCount` is then negative. -/
theorem bipartite_edgeCount :
    ∃ g, Along step StepAllowed { bDirectSelf := false } (bipartite (2 ^ 16) (2 ^ 15)) ∧
      run step { bDirectSelf := false } (bipartite (2 ^ 16) (2 ^ 15)) = .ok g ∧
      (digraphOf false (bipartite (2 ^ 16) (2 ^ 15))).arcs.length = 2 ^ 31 ∧
      g.edgeCount.toInt = -2 ^ 31 := by
  have hallowed : Along step StepAllowed { bDirectSelf := false }
      (bipartite (2 ^ 16) (2 ^ 15)) := by
    refine allowed_build _ _ _ ?_
    rw [List.length_replicate]
    decide
  have harcs := bipartite_arcs (m := 2 ^ 16) (n := 2 ^ 15) (by decide)
  rcases run_refines (refines_empty false) hallowed with ⟨g, hrun, hg⟩
  refine ⟨g, hallowed, hrun, harcs, ?_⟩
  have hsize : g.edgeMap.size = 2 ^ 31 := hg.edgeSize_eq.trans harcs
  rw [edgeCount, hsize]
  decide

end TDirectedGraph

end Septem
