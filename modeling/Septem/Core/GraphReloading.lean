import Septem.Core.CanonicalSerialize
import Septem.Core.GraphLoading

/-!
# GraphReloading — what becomes of a graph that is saved and loaded again

`roundTrip_iff` of `GraphSerialize` says that no graph with vertices survives a round trip, because
the vertex array is resized before the vertices are appended to it.  Here is what a graph turns
into:

* `addEdges_getElem?`: of the edges with one key, the edge loop keeps the first that it can add;
* `addEdges_toList`: so it restores all edges of a graph, with the exception of loops that the graph
  does not allow (`Sound` is what this asks of a graph);
* `reload_eq`: the loaded graph, in full;
* `reload_generations`: what a graph looks like when it has been saved and loaded any number of
  times.
-/

namespace Septem

open Cxx

namespace TDirectedGraph

variable {VT ET : Type}

/-! ## Phases -/

/-- The phases of `Deseriallize`: flag, vertex count, room for the vertices, vertices, edge count,
keys, edges. -/
theorem deseriallize_phases [TriviallyCopyable VT] [TriviallyCopyable ET] [Inhabited VT] {G : Type}
    (cls : GraphClass G VT ET) (this : G) (inBuffer : Bytes) (inSize : UInt64) :
    deseriallize cls this inBuffer inSize =
      fetch Bool (inBuffer, 0) >>= fun flag =>
      fetch Int32 flag.2 >>= fun vertexCount =>
      resize [] vertexCount.1.toInt default >>= fun vertexArray =>
      fetchLoop (fun this (vertex : TVertex VT) => cls.addVertex this vertex.value)
        vertexCount.1.toInt.toNat (presized cls this flag.1 vertexArray) vertexCount.2 >>=
          fun loaded =>
      fetch Int32 loaded.2 >>= fun edgeCount =>
      fetchLoop (fun edgekeys (key : UInt64) => pure (edgekeys ++ [key])) edgeCount.1.toInt.toNat
        ([] : List UInt64) edgeCount.2 >>= fun edgekeys =>
      fetchLoop (fun this (edge : TEdge ET) =>
        cls.addEdge this edge >>= fun added => pure added.2) edgeCount.1.toInt.toNat
        (cls.withBase loaded.1 { cls.base loaded.1 with edgeMap := ∅ }) edgekeys.2 >>= fun final =>
      pure final.1 := by
  have hreset : cls.base (cls.reset this) =
      { (cls.base this) with vertexArray := [], edgeMap := ∅ } := cls.base_reset this
  simp only [deseriallize, presized, cls.base_withBase, cls.withBase_withBase, hreset]

/-! ## The edges of a loaded graph -/

/-- The edge is no loop, or loops are allowed. -/
def LoopAllowed (bDirectSelf : Bool) (edge : TEdge ET) : Prop :=
  edge.startId ≠ edge.endId ∨ bDirectSelf = true

instance (bDirectSelf : Bool) (edge : TEdge ET) : Decidable (LoopAllowed bDirectSelf edge) :=
  inferInstanceAs (Decidable (_ ∨ _))

/-- Every edge that `AddEdge` would not refuse as a loop is stored under its own key and joins
vertices. -/
def Sound (this : TDirectedGraph VT ET) : Prop :=
  ∀ (k : UInt64) (edge : TEdge ET), this.edgeMap[k]? = some edge →
    LoopAllowed this.bDirectSelf edge →
      k = edgeKey edge.startId edge.endId ∧
      this.IsPosition edge.startId ∧ this.IsPosition edge.endId

theorem WellFormed.sound {this : TDirectedGraph VT ET} (h : this.WellFormed) : this.Sound :=
  fun k edge hget _ => ⟨h.key k edge hget, h.ends k edge hget⟩

/-- The edge loop of `Deseriallize`. -/
def addEdges (this : TDirectedGraph VT ET) (edges : List (TEdge ET)) : TDirectedGraph VT ET :=
  edges.foldl (fun this edge => (this.addEdge edge).2) this

@[simp] theorem addEdges_vertexArray (this : TDirectedGraph VT ET) (edges : List (TEdge ET)) :
    (this.addEdges edges).vertexArray = this.vertexArray := by
  induction edges generalizing this with
  | nil => rfl
  | cons edge rest ih =>
      calc
        ((this.addEdge edge).2.addEdges rest).vertexArray
            = (this.addEdge edge).2.vertexArray := ih _
        _ = this.vertexArray := addEdge_vertexArray this edge

@[simp] theorem addEdges_bDirectSelf (this : TDirectedGraph VT ET) (edges : List (TEdge ET)) :
    (this.addEdges edges).bDirectSelf = this.bDirectSelf := by
  induction edges generalizing this with
  | nil => rfl
  | cons edge rest ih =>
      calc
        ((this.addEdge edge).2.addEdges rest).bDirectSelf
            = (this.addEdge edge).2.bDirectSelf := ih _
        _ = this.bDirectSelf := addEdge_bDirectSelf this edge

theorem addEdges_wellFormed {this : TDirectedGraph VT ET} (h : this.WellFormed)
    (edges : List (TEdge ET)) : (this.addEdges edges).WellFormed := by
  induction edges generalizing this with
  | nil => exact h
  | cons edge rest ih => exact ih (addEdge_wellFormed h edge)

instance (this : TDirectedGraph VT ET) (id : Int32) : Decidable (this.IsPosition id) :=
  inferInstanceAs (Decidable (_ ∧ _))

/-- `AddEdge` adds the edge if its key is free. -/
def Admits (this : TDirectedGraph VT ET) (edge : TEdge ET) : Prop :=
  LoopAllowed this.bDirectSelf edge ∧ this.IsPosition edge.startId ∧ this.IsPosition edge.endId

instance (this : TDirectedGraph VT ET) (edge : TEdge ET) : Decidable (this.Admits edge) :=
  inferInstanceAs (Decidable (_ ∧ _))

theorem addEdge_admits_iff (this : TDirectedGraph VT ET) (inEdge edge : TEdge ET) :
    (this.addEdge inEdge).2.Admits edge ↔ this.Admits edge := by
  rw [Admits, Admits, addEdge_bDirectSelf, IsPosition, IsPosition, IsPosition, IsPosition,
    addEdge_vertexArray]

/-- `AddEdge` keeps the edge that has the key. -/
theorem addEdge_getElem? {this : TDirectedGraph VT ET} (hsize : this.vertexArray.length < 2 ^ 31)
    (edge : TEdge ET) (k : UInt64) :
    (this.addEdge edge).2.edgeMap[k]? = this.edgeMap[k]?.or
      (if edgeKey edge.startId edge.endId = k ∧ this.Admits edge then some edge else none) := by
  by_cases hacc : this.Accepts edge
  · have hadmits : this.Admits edge := ⟨hacc.directSelf,
      isPosition_of_isValidVertexIndex hacc.startId, isPosition_of_isValidVertexIndex hacc.endId⟩
    rw [addEdge_accepted hacc, Std.ExtTreeMap.getElem?_insert]
    simp only [Std.LawfulEqCmp.compare_eq_iff_eq]
    by_cases hk : edgeKey edge.startId edge.endId = k
    · -- The key was free.
      have hnone : this.edgeMap[k]? = none := by
        rw [← hk, Option.eq_none_iff_forall_ne_some]
        intro old hold
        have hvalid := (this.isValidEdge_iff edge.startId edge.endId).2 ⟨old, hold⟩
        rw [hacc.new] at hvalid
        cases hvalid
      rw [if_pos hk, if_pos ⟨hk, hadmits⟩, hnone, Option.none_or]
    · rw [if_neg hk, if_neg fun h => hk h.1, Option.or_none]
  · rw [addEdge_refused hacc]
    by_cases h : edgeKey edge.startId edge.endId = k ∧ this.Admits edge
    · -- Only the key is in the way, so there is an edge that has it.
      rcases h with ⟨rfl, hloop, hstart, hend⟩
      have hvalid : this.isValidEdge edge.startId edge.endId = true := by
        rw [← Bool.not_eq_false]
        intro hnew
        exact hacc ⟨hloop, (isValidVertexIndex_iff hsize _).2 hstart,
          (isValidVertexIndex_iff hsize _).2 hend, hnew⟩
      rcases (this.isValidEdge_iff _ _).1 hvalid with ⟨old, hold⟩
      rw [hold, Option.some_or]
    · rw [if_neg h, Option.or_none]

/-- Of the edges with one key, the edge loop keeps the first that it can add. -/
theorem addEdges_getElem? {this : TDirectedGraph VT ET} (hsize : this.vertexArray.length < 2 ^ 31)
    (edges : List (TEdge ET)) (k : UInt64) :
    (this.addEdges edges).edgeMap[k]? = this.edgeMap[k]?.or
      (edges.find? fun edge => edgeKey edge.startId edge.endId = k ∧ this.Admits edge) := by
  induction edges generalizing this with
  | nil => exact (Option.or_none).symm
  | cons edge rest ih =>
      have hsize' : (this.addEdge edge).2.vertexArray.length < 2 ^ 31 := by
        rwa [addEdge_vertexArray]
      calc
        (this.addEdges (edge :: rest)).edgeMap[k]?
            = ((this.addEdge edge).2.addEdges rest).edgeMap[k]? := rfl
        _ = _ := by
            rw [ih hsize', addEdge_getElem? hsize, List.find?_cons, Option.or_assoc]
            simp only [addEdge_admits_iff]
            by_cases h : edgeKey edge.startId edge.endId = k ∧ this.Admits edge
            · rw [if_pos h, decide_eq_true h, Option.some_or]
            · rw [if_neg h, decide_eq_false h, Option.none_or]

/-- In an ordered list, an element that passes is the first one if none in front of it does. -/
theorem find?_eq_some_of_first {α : Type} {R : α → α → Prop} {p : α → Bool} {xs : List α}
    (hxs : xs.Pairwise R) {x : α} (hx : x ∈ xs) (hp : p x = true)
    (hfirst : ∀ y ∈ xs, R y x → p y = false) : xs.find? p = some x := by
  induction xs with
  | nil => exact absurd hx List.not_mem_nil
  | cons y rest ih =>
      rcases List.pairwise_cons.1 hxs with ⟨hy, hrest⟩
      rcases List.mem_cons.1 hx with rfl | hlater
      · exact List.find?_cons_of_pos hp
      · have hfails : ¬ p y = true := by
          rw [hfirst y List.mem_cons_self (hy x hlater)]
          exact Bool.false_ne_true
        rw [List.find?_cons_of_neg hfails]
        exact ih hrest hlater fun z hz => hfirst z (List.mem_cons_of_mem y hz)

/-- On a graph without edges, the edge loop keeps an edge of another graph if it can add it and no
edge with a smaller key is in its way. -/
theorem addEdges_toList_of_first {this source : TDirectedGraph VT ET}
    (hsize : this.vertexArray.length < 2 ^ 31) (hempty : this.edgeMap = ∅) {k k' : UInt64}
    {edge : TEdge ET} (hget : source.edgeMap[k']? = some edge)
    (hkey : edgeKey edge.startId edge.endId = k) (hadmits : this.Admits edge)
    (hfirst : ∀ (k'' : UInt64) (other : TEdge ET), source.edgeMap[k'']? = some other → k'' < k' →
      ¬ (edgeKey other.startId other.endId = k ∧ this.Admits other)) :
    (this.addEdges (source.edgeMap.toList.map Prod.snd)).edgeMap[k]? = some edge := by
  rw [addEdges_getElem? hsize, hempty, Std.ExtTreeMap.getElem?_empty, Option.none_or,
    List.find?_map, Option.map_eq_some_iff]
  refine ⟨(k', edge), ?_, rfl⟩
  refine find?_eq_some_of_first Std.ExtTreeMap.ordered_keys_toList
    (Std.ExtTreeMap.mem_toList_iff_getElem?_eq_some.2 hget) (decide_eq_true ⟨hkey, hadmits⟩) ?_
  intro entry hentry hless
  exact decide_eq_false (hfirst entry.1 entry.2
    (Std.ExtTreeMap.mem_toList_iff_getElem?_eq_some.1 hentry) (Std.compare_eq_lt.1 hless))

/-- If the edge loop can add an edge with this key, it keeps one. -/
theorem exists_addEdges_toList {this source : TDirectedGraph VT ET}
    (hsize : this.vertexArray.length < 2 ^ 31) (hempty : this.edgeMap = ∅) {k' : UInt64}
    {edge : TEdge ET} (hget : source.edgeMap[k']? = some edge) (hadmits : this.Admits edge) :
    ∃ kept, (this.addEdges (source.edgeMap.toList.map Prod.snd)).edgeMap[
      edgeKey edge.startId edge.endId]? = some kept := by
  rw [addEdges_getElem? hsize, hempty, Std.ExtTreeMap.getElem?_empty, Option.none_or,
    ← Option.isSome_iff_exists, List.find?_isSome]
  have hmem := Std.ExtTreeMap.mem_toList_iff_getElem?_eq_some.2 hget
  exact ⟨edge, List.mem_map_of_mem hmem, decide_eq_true ⟨rfl, hadmits⟩⟩

/-- What the edge loop keeps are edges that it could add. -/
theorem of_addEdges_toList {this source : TDirectedGraph VT ET}
    (hsize : this.vertexArray.length < 2 ^ 31) (hempty : this.edgeMap = ∅) {k : UInt64}
    {edge : TEdge ET}
    (hget : (this.addEdges (source.edgeMap.toList.map Prod.snd)).edgeMap[k]? = some edge) :
    edgeKey edge.startId edge.endId = k ∧ this.Admits edge ∧
      ∃ k' : UInt64, source.edgeMap[k']? = some edge := by
  rw [addEdges_getElem? hsize, hempty, Std.ExtTreeMap.getElem?_empty, Option.none_or] at hget
  have hfound := List.find?_some hget
  rcases of_decide_eq_true hfound with ⟨hkey, hadmits⟩
  rcases List.mem_map.1 (List.mem_of_find?_eq_some hget) with ⟨entry, hentry, rfl⟩
  exact ⟨hkey, hadmits, entry.1, Std.ExtTreeMap.mem_toList_iff_getElem?_eq_some.1 hentry⟩

/-- On a graph without edges and with enough vertices, the edge loop restores the edges of a sound
graph, with the exception of forbidden loops. -/
theorem addEdges_toList {this source : TDirectedGraph VT ET} (hsource : source.Sound)
    (hflag : this.bDirectSelf = source.bDirectSelf) (hempty : this.edgeMap = ∅)
    (hsize : this.vertexArray.length < 2 ^ 31)
    (hroom : source.vertexArray.length ≤ this.vertexArray.length) :
    (this.addEdges (source.edgeMap.toList.map Prod.snd)).edgeMap =
      source.edgeMap.filter fun _ edge => LoopAllowed source.bDirectSelf edge := by
  have hposition (id : Int32) (hid : source.IsPosition id) : this.IsPosition id := by
    have hlt := hid.2
    exact ⟨hid.1, by omega⟩
  apply Std.ExtTreeMap.ext_getElem?
  intro k
  apply Option.ext
  intro edge
  rw [Std.ExtTreeMap.getElem?_filter', Option.filter_eq_some_iff, decide_eq_true_iff]
  constructor
  · intro hget
    rcases of_addEdges_toList hsize hempty hget with ⟨rfl, hadmits, k', hold⟩
    have hloop := hadmits.1
    rw [hflag] at hloop
    rw [← (hsource k' edge hold hloop).1]
    exact ⟨hold, hloop⟩
  · rintro ⟨hold, hloop⟩
    rcases hsource k edge hold hloop with ⟨hkey, hstart, hend⟩
    have hadmits : this.Admits edge := by
      refine ⟨?_, hposition _ hstart, hposition _ hend⟩
      rwa [hflag]
    refine addEdges_toList_of_first hsize hempty hold hkey.symm hadmits ?_
    -- An edge that can be added is under its own key, so no other edge has this one.
    rintro k' other hother hless ⟨rfl, hloop', -⟩
    rw [hflag] at hloop'
    rw [(hsource k' other hother hloop').1] at hless
    exact absurd hless (UInt64.lt_irrefl _)

/-- A well-formed graph has no forbidden loops. -/
theorem WellFormed.filter_eq {this : TDirectedGraph VT ET} (h : this.WellFormed) :
    (this.edgeMap.filter fun _ edge => LoopAllowed this.bDirectSelf edge) = this.edgeMap := by
  rw [Std.ExtTreeMap.filter_eq_self_iff]
  intro k hk
  rw [decide_eq_true_iff]
  exact h.directSelf _ _ (Std.ExtTreeMap.getElem?_eq_some_getElem hk)

/-! ## The vertices of a loaded graph -/

/-- The vertex loop of `Deseriallize`. -/
def addVertices (this : TDirectedGraph VT ET) (vertices : List (TVertex VT)) :
    TDirectedGraph VT ET :=
  vertices.foldl (fun this vertex => this.addVertex vertex.value) this

/-- The values are appended, and the vertices get indices of their own. -/
theorem addVertices_eq (this : TDirectedGraph VT ET) (vertices : List (TVertex VT)) :
    this.addVertices vertices = { this with
      vertexArray := this.vertexArray ++ vertices.mapIdx fun i vertex =>
        { index := Int32.ofNat (this.vertexArray.length + i), value := vertex.value } } := by
  induction vertices generalizing this with
  | nil => simp [addVertices]
  | cons vertex rest ih =>
      calc
        this.addVertices (vertex :: rest) = (this.addVertex vertex.value).addVertices rest := rfl
        _ = _ := by
            rw [ih]
            simp [addVertex, List.mapIdx_cons, Nat.add_assoc, Nat.add_comm 1]

/-! ## Loading what was saved -/

variable [TriviallyCopyable VT] [TriviallyCopyable ET] [Inhabited ET]

omit [TriviallyCopyable VT] [TriviallyCopyable ET] in
/-- The edges are written in the order of their keys. -/
theorem CountsFit.edgeSection_eq {this : TDirectedGraph VT ET} (h : this.CountsFit) :
    this.edgeSection = this.edgeMap.toList.map Prod.snd := by
  rw [edgeSection, h.keySection_eq, ← Std.ExtTreeMap.map_fst_toList_eq_keys, List.map_map]
  refine List.map_congr_left ?_
  intro entry hentry
  have hget : this.edgeMap[entry.1]? = some entry.2 :=
    Std.ExtTreeMap.mem_toList_iff_getElem?_eq_some.1 hentry
  simp only [Function.comp_apply, getEdgeByKey, hget]

variable [Inhabited VT]

omit [TriviallyCopyable VT] [TriviallyCopyable ET] [Inhabited ET] in
/-- The vertices of a loaded graph: those `resize` made, and behind them the ones that were saved,
with new indices. -/
def reloadedVertices (source : TDirectedGraph VT ET) : List (TVertex VT) :=
  List.replicate source.vertexArray.length default ++ source.vertexArray.mapIdx fun i vertex =>
    { index := Int32.ofNat (source.vertexArray.length + i), value := vertex.value }

omit [TriviallyCopyable VT] [TriviallyCopyable ET] [Inhabited ET] in
theorem length_reloadedVertices (source : TDirectedGraph VT ET) :
    source.reloadedVertices.length = 2 * source.vertexArray.length := by
  rw [reloadedVertices, List.length_append, List.length_replicate, List.length_mapIdx, Nat.two_mul]

omit [TriviallyCopyable VT] [TriviallyCopyable ET] [Inhabited ET] in
/-- The graph that is loaded from the bytes of `source`: twice the vertices, and those of the edges
that the edge loop keeps. -/
def reloaded (source : TDirectedGraph VT ET) : TDirectedGraph VT ET :=
  addEdges { bDirectSelf := source.bDirectSelf, vertexArray := source.reloadedVertices }
    (source.edgeMap.toList.map Prod.snd)

omit [TriviallyCopyable VT] [TriviallyCopyable ET] [Inhabited ET] in
@[simp] theorem reloaded_bDirectSelf (source : TDirectedGraph VT ET) :
    source.reloaded.bDirectSelf = source.bDirectSelf :=
  addEdges_bDirectSelf _ _

omit [TriviallyCopyable VT] [TriviallyCopyable ET] [Inhabited ET] in
@[simp] theorem reloaded_vertexArray (source : TDirectedGraph VT ET) :
    source.reloaded.vertexArray = source.reloadedVertices :=
  addEdges_vertexArray _ _

omit [TriviallyCopyable VT] [TriviallyCopyable ET] [Inhabited ET] in
/-- Whatever has been saved, the loaded graph is well-formed. -/
theorem reloaded_wellFormed (source : TDirectedGraph VT ET) : source.reloaded.WellFormed :=
  addEdges_wellFormed (noEdges_wellFormed rfl) _

omit [TriviallyCopyable VT] [TriviallyCopyable ET] [Inhabited ET] in
/-- The loaded graph of a sound one: all edges but the forbidden loops. -/
theorem Sound.reloaded_eq {source : TDirectedGraph VT ET} (h : source.Sound)
    (hvertices : 2 * source.vertexArray.length < 2 ^ 31) :
    source.reloaded = {
      bDirectSelf := source.bDirectSelf
      vertexArray := source.reloadedVertices
      edgeMap := source.edgeMap.filter fun _ edge => LoopAllowed source.bDirectSelf edge } := by
  have hlen := source.length_reloadedVertices
  have hmap : source.reloaded.edgeMap =
      source.edgeMap.filter fun _ edge => LoopAllowed source.bDirectSelf edge := by
    -- The ends of the edges are below the old count, and so among the vertices of `resize`.
    refine addEdges_toList h rfl rfl ?_ ?_
    · rw [hlen]
      exact hvertices
    · rw [hlen]
      omega
  calc
    source.reloaded = ⟨source.reloaded.bDirectSelf, source.reloaded.vertexArray,
        source.reloaded.edgeMap⟩ := rfl
    _ = _ := by rw [reloaded_bDirectSelf, reloaded_vertexArray, hmap]

/-- Loading the bytes of a graph. -/
theorem deseriallize_reloaded {source : TDirectedGraph VT ET}
    (hedges : source.edgeMap.size < 2 ^ 31) (hvertices : 2 * source.vertexArray.length < 2 ^ 31)
    (this : TDirectedGraph VT ET) (rest : Bytes) (inSize : UInt64) :
    deseriallize graphClass this (source.written ++ rest) inSize = .ok source.reloaded := by
  have hfit : source.CountsFit := ⟨by omega, hedges⟩
  have hcount : source.vertexCount.toInt = source.vertexArray.length :=
    Int32.toInt_ofNat_of_lt hfit.vertices
  have hresize : resize ([] : List (TVertex VT)) source.vertexCount.toInt default =
      .ok (List.replicate source.vertexArray.length default) := by
    rw [hcount, resize, if_pos (Int.natCast_nonneg _)]
    simp
  -- The object once its vertices are read.
  let start : TDirectedGraph VT ET :=
    { bDirectSelf := source.bDirectSelf
      vertexArray := List.replicate source.vertexArray.length default }
  have hloaded : start.addVertices source.vertexArray =
      { start with vertexArray := source.reloadedVertices } := by
    rw [addVertices_eq, reloadedVertices, List.length_replicate]
  -- `resize` has made the vertices, and `AddVertex` makes them again behind these.
  have hvertexLoop : source.vertexArray.foldlM
      (fun this (vertex : TVertex VT) => graphClass.addVertex this vertex.value)
      (presized graphClass this source.bDirectSelf start.vertexArray) =
        (.ok { start with vertexArray := source.reloadedVertices } :
          Checked (TDirectedGraph VT ET)) := by
    rw [← hloaded]
    exact List.foldlM_pure
  have hedgeLoop : (source.edgeMap.toList.map Prod.snd).foldlM
      (fun this (edge : TEdge ET) => graphClass.addEdge this edge >>= fun added => pure added.2)
      { start with vertexArray := source.reloadedVertices } =
        (.ok source.reloaded : Checked (TDirectedGraph VT ET)) :=
    List.foldlM_pure
  rw [written, deseriallize_sections, hresize, Checked.ok_bind, hfit.vertexSection_eq,
    hvertexLoop, Checked.ok_bind, hfit.edgeSection_eq]
  exact hedgeLoop

/-- Loading the bytes of a sound graph: twice the vertices, and the edges without the forbidden
loops. -/
theorem deseriallize_written {source : TDirectedGraph VT ET} (hsource : source.Sound)
    (hedges : source.edgeMap.size < 2 ^ 31) (hvertices : 2 * source.vertexArray.length < 2 ^ 31)
    (this : TDirectedGraph VT ET) (rest : Bytes) (inSize : UInt64) :
    deseriallize graphClass this (source.written ++ rest) inSize = .ok {
      bDirectSelf := source.bDirectSelf
      vertexArray := source.reloadedVertices
      edgeMap := source.edgeMap.filter fun _ edge => LoopAllowed source.bDirectSelf edge } := by
  rw [← hsource.reloaded_eq hvertices]
  exact deseriallize_reloaded hedges hvertices this rest inSize

/-- What a save and a load are given: the buffer `Seriallize` writes to and the object `Deseriallize`
is called on. -/
structure Reload (VT ET : Type) where
  outBuffer : Bytes
  target : TDirectedGraph VT ET

/-- Save the graph and load what was saved. -/
def reload (this : TDirectedGraph VT ET) (op : Reload VT ET) : Checked (TDirectedGraph VT ET) := do
  let (bytes, outSize) ← this.seriallize op.outBuffer false
  deseriallize graphClass op.target bytes outSize

omit [Inhabited VT] in
/-- The counts fit an `int32` before and after, and the graph fits into the buffer. -/
structure Fits (this : TDirectedGraph VT ET) (op : Reload VT ET) : Prop where
  vertices : 2 * this.vertexArray.length < 2 ^ 31
  edges : this.edgeMap.size < 2 ^ 31
  buffer : this.written.length ≤ op.outBuffer.length

/-- What is saved is loaded again. -/
theorem reload_reloaded {this : TDirectedGraph VT ET} {op : Reload VT ET}
    (hfits : this.Fits op) : this.reload op = .ok this.reloaded := by
  have hsave : this.seriallize op.outBuffer false =
      .ok (this.written ++ op.outBuffer.drop this.written.length, this.outSize) := by
    rw [seriallize, if_neg Bool.false_ne_true, this.writeSections_ok hfits.buffer]
    rfl
  rw [reload, hsave, Checked.ok_bind]
  exact deseriallize_reloaded hfits.edges hfits.vertices op.target _ _

theorem reload_eq {this : TDirectedGraph VT ET} (hsound : this.Sound) {op : Reload VT ET}
    (hfits : this.Fits op) :
    this.reload op = .ok {
      bDirectSelf := this.bDirectSelf
      vertexArray := this.reloadedVertices
      edgeMap := this.edgeMap.filter fun _ edge => LoopAllowed this.bDirectSelf edge } := by
  rw [← hsound.reloaded_eq hfits.vertices]
  exact reload_reloaded hfits

/-! ## Generations -/

omit [TriviallyCopyable VT] [TriviallyCopyable ET] [Inhabited ET] in
/-- What is left of a graph when it has been saved and loaded `m` times. -/
structure Generation (origin : TDirectedGraph VT ET) (this : TDirectedGraph VT ET) (m : Nat) :
    Prop where
  bDirectSelf : this.bDirectSelf = origin.bDirectSelf
  edgeMap : this.edgeMap = origin.edgeMap
  values : this.vertexArray.map TVertex.value =
    List.replicate ((2 ^ m - 1) * origin.vertexArray.length) default ++
      origin.vertexArray.map TVertex.value

omit [TriviallyCopyable VT] [TriviallyCopyable ET] [Inhabited ET] in
theorem Generation.length_eq {origin this : TDirectedGraph VT ET} {m : Nat}
    (h : Generation origin this m) :
    this.vertexArray.length = 2 ^ m * origin.vertexArray.length := by
  have hlen := congrArg List.length h.values
  rw [List.length_map, List.length_append, List.length_replicate, List.length_map] at hlen
  have hpow : 2 ^ m = 2 ^ m - 1 + 1 := (Nat.sub_add_cancel Nat.one_le_two_pow).symm
  rw [hlen, hpow, Nat.add_sub_cancel, Nat.add_mul, Nat.one_mul]

omit [TriviallyCopyable VT] [TriviallyCopyable ET] [Inhabited ET] in
/-- A well-formed graph stays one, because its vertices only become more. -/
theorem Generation.wellFormed {origin this : TDirectedGraph VT ET} {m : Nat}
    (h : Generation origin this m) (horigin : origin.WellFormed) : this.WellFormed := by
  have hlen : origin.vertexArray.length ≤ this.vertexArray.length := by
    rw [h.length_eq]
    exact Nat.le_mul_of_pos_left _ (Nat.two_pow_pos m)
  refine ⟨⟨?_, ?_⟩, ?_⟩
  · rw [h.edgeMap]
    exact horigin.key
  · -- The ends were positions of fewer vertices.
    intro k edge hget
    rw [h.edgeMap] at hget
    rcases horigin.ends k edge hget with ⟨hstart, hend⟩
    have hstartLt := hstart.2
    have hendLt := hend.2
    exact ⟨⟨hstart.1, by omega⟩, hend.1, by omega⟩
  · rw [h.edgeMap, h.bDirectSelf]
    exact horigin.directSelf

omit [TriviallyCopyable VT] [TriviallyCopyable ET] [Inhabited ET] in
theorem values_reloadedVertices (this : TDirectedGraph VT ET) :
    this.reloadedVertices.map TVertex.value =
      List.replicate this.vertexArray.length default ++ this.vertexArray.map TVertex.value := by
  have hvalues : (this.vertexArray.mapIdx fun i (vertex : TVertex VT) =>
      { index := Int32.ofNat (this.vertexArray.length + i), value := vertex.value }).map
        TVertex.value = this.vertexArray.map TVertex.value := by
    apply List.ext_getElem
    · simp
    · intro i _ _
      simp
  rw [reloadedVertices, List.map_append, List.map_replicate, hvalues]
  rfl

omit [TriviallyCopyable VT] [TriviallyCopyable ET] [Inhabited ET] in
/-- From the first generation on, the ids of the first graph are those of vertices with
value-initialised values. -/
theorem Generation.elementAt_default {origin this : TDirectedGraph VT ET} {m : Nat}
    (h : Generation origin this m) (hm : 0 < m) {id : Int32} (hid : origin.IsPosition id) :
    ∃ vertex, elementAt this.vertexArray id.toInt = .ok vertex ∧ vertex.value = default := by
  rcases Int.eq_ofNat_of_zero_le hid.1 with ⟨i, hi⟩
  have hlt : i < origin.vertexArray.length := by
    have hidLt := hid.2
    omega
  have hpow : 1 ≤ 2 ^ m - 1 := by
    have htwo : 2 ^ 1 ≤ 2 ^ m := Nat.pow_le_pow_right (by omega) hm
    omega
  -- The old positions are all in front of the saved values.
  have hprefix : i < (2 ^ m - 1) * origin.vertexArray.length :=
    Nat.lt_of_lt_of_le hlt (Nat.le_mul_of_pos_left _ hpow)
  have hvalue : (this.vertexArray.map TVertex.value)[i]? = some default := by
    rw [h.values, List.getElem?_append_left (by simpa using hprefix),
      List.getElem?_replicate, if_pos hprefix]
  rw [List.getElem?_map, Option.map_eq_some_iff] at hvalue
  rcases hvalue with ⟨vertex, hget, hdefault⟩
  exact ⟨vertex, by rw [hi]; exact elementAt_eq_ok.2 hget, hdefault⟩

/-- One more save and load is one more generation. -/
theorem reload_generation {origin this : TDirectedGraph VT ET} {m : Nat}
    (horigin : origin.WellFormed) (h : Generation origin this m) {op : Reload VT ET}
    (hfits : this.Fits op) :
    ∃ this', this.reload op = .ok this' ∧ Generation origin this' (m + 1) := by
  have hwell := h.wellFormed horigin
  refine ⟨_, reload_eq hwell.sound hfits, h.bDirectSelf, ?_, ?_⟩
  · rw [hwell.filter_eq, h.edgeMap]
  · have hcount : 2 ^ m * origin.vertexArray.length + (2 ^ m - 1) * origin.vertexArray.length =
        (2 ^ (m + 1) - 1) * origin.vertexArray.length := by
      rw [← Nat.add_mul]
      have hpos := Nat.one_le_two_pow (n := m)
      have hsum : 2 ^ m + (2 ^ m - 1) = 2 ^ (m + 1) - 1 := by omega
      rw [hsum]
    calc
      this.reloadedVertices.map TVertex.value
          = List.replicate this.vertexArray.length default ++ this.vertexArray.map TVertex.value :=
            values_reloadedVertices this
      _ = _ := by
            rw [h.values, h.length_eq, ← List.append_assoc, List.replicate_append_replicate, hcount]

/-- Saving and loading again and again keeps the flag and every edge, but doubles the vertices each
time: the values move to the end of the array, and the vertices that the edges join have
value-initialised values. -/
theorem reload_generations {origin : TDirectedGraph VT ET} (horigin : origin.WellFormed)
    (ops : List (Reload VT ET)) (hfits : Along reload Fits origin ops) :
    ∃ this, run reload origin ops = .ok this ∧
      this.bDirectSelf = origin.bDirectSelf ∧ this.edgeMap = origin.edgeMap ∧
      this.vertexArray.length = 2 ^ ops.length * origin.vertexArray.length ∧
      this.vertexArray.map TVertex.value =
        List.replicate ((2 ^ ops.length - 1) * origin.vertexArray.length) default ++
          origin.vertexArray.map TVertex.value ∧
      (ops ≠ [] → ∀ (k : UInt64) (edge : TEdge ET), this.edgeMap[k]? = some edge →
        ∃ start finish : TVertex VT, elementAt this.vertexArray edge.startId.toInt = .ok start ∧
          elementAt this.vertexArray edge.endId.toInt = .ok finish ∧
          start.value = default ∧ finish.value = default) := by
  have hstep (this : TDirectedGraph VT ET) (m : Nat) (op : Reload VT ET)
      (h : Generation origin this m) (hop : this.Fits op) :
      ∃ this', this.reload op = .ok this' ∧ Generation origin this' (m + 1) :=
    reload_generation horigin h hop
  have hstart : Generation origin origin 0 := ⟨rfl, rfl, by simp⟩
  have hsimulates : ∃ this, run reload origin ops = .ok this ∧
      Generation origin this (ops.foldl (fun m _ => m + 1) 0) :=
    run_simulates hstep hstart hfits
  -- The generation counts the saves.
  have hcount : ops.foldl (fun m _ => m + 1) 0 = ops.length := by simp
  rw [hcount] at hsimulates
  rcases hsimulates with ⟨this, hrun, hend⟩
  refine ⟨this, hrun, hend.bDirectSelf, hend.edgeMap, hend.length_eq, hend.values, ?_⟩
  intro hops k edge hget
  rw [hend.edgeMap] at hget
  rcases horigin.ends k edge hget with ⟨hstartPos, hendPos⟩
  have hpos : 0 < ops.length := List.length_pos_iff.2 hops
  rcases hend.elementAt_default hpos hstartPos with ⟨start, hs, hsValue⟩
  rcases hend.elementAt_default hpos hendPos with ⟨finish, hf, hfValue⟩
  exact ⟨start, finish, hs, hf, hsValue, hfValue⟩

/-- Two vertices and an edge between them. -/
def twoVertices : TDirectedGraph UInt8 UInt8 :=
  (((({} : TDirectedGraph UInt8 UInt8).addVertex 5).addVertex 6).addEdge ⟨0, 1, 7⟩).2

theorem twoVertices_wellFormed : twoVertices.WellFormed :=
  addEdge_wellFormed (addVertex_wellFormed (addVertex_wellFormed (noEdges_wellFormed rfl) 5) 6) _

/-- Saved and loaded twice, they are eight vertices. -/
theorem reload_generations_twoVertices :
    ∃ this, run reload twoVertices [⟨List.replicate 36 0, {}⟩, ⟨List.replicate 46 0, {}⟩] =
        .ok this ∧
      this.vertexArray.map TVertex.value = [0, 0, 0, 0, 0, 0, 5, 6] := by
  have hfits : Along reload Fits twoVertices
      [⟨List.replicate 36 0, {}⟩, ⟨List.replicate 46 0, {}⟩] := by
    refine ⟨⟨by decide, by decide, by decide⟩, ?_⟩
    intro this hthis
    cases hthis
    exact ⟨⟨by decide, by decide, by decide⟩, fun _ _ => trivial⟩
  rcases reload_generations twoVertices_wellFormed _ hfits with ⟨this, hrun, -, -, -, hvalues, -⟩
  exact ⟨this, hrun, hvalues⟩

end TDirectedGraph

end Septem
