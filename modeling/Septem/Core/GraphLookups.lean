import Septem.Core.GraphReloading

/-!
# GraphLookups — what unchecked `GetEdge` calls leave behind

`GetEdge` is documented as an unsafe call: a client has to check `IsValidEdge` before.  A client who
does not gets a value-initialised edge, which `std::map::operator[]` has inserted under the key that
was looked up.  A `LookupSession` is a graph in use, with a record of the edges accepted and of the
keys looked up; `Explained` says that the edge map is nothing but these two.

* `run_explained`: the edge map and the verdicts of `AddEdge` and `IsValidEdge` after every run;
* `reload_heals`: saving and loading the graph drops what the lookups have inserted, with the
  exception of one loop at the first vertex, in a graph that allows loops.
-/

namespace Septem

open Cxx

/-- The operations on a graph, with `GetEdge` for any ids and any key.  The edge it returns is only
read. -/
inductive LookupOp (VT ET : Type)
  | addVertex (inVT : VT)
  | addEdge (inEdge : TEdge ET)
  | reset
  | getEdge (inStartIndex inEndIndex : Int32)
  | getEdgeByKey (inKey : UInt64)

structure LookupSession (VT ET : Type) where
  graph : TDirectedGraph VT ET
  /-- the edges accepted since the last `Reset` -/
  accepted : List (TEdge ET) := []
  /-- the keys looked up since the last `Reset` -/
  lookedUp : List UInt64 := []

namespace LookupSession

variable {VT ET : Type} [Inhabited ET]

def lookUp (s : LookupSession VT ET) (inKey : UInt64) : LookupSession VT ET :=
  { s with graph := (s.graph.getEdgeByKey inKey).2, lookedUp := s.lookedUp ++ [inKey] }

def step (s : LookupSession VT ET) : LookupOp VT ET → Checked (LookupSession VT ET)
  | .addVertex inVT => pure { s with graph := s.graph.addVertex inVT }
  | .addEdge inEdge =>
      let (ret, graph) := s.graph.addEdge inEdge
      pure { s with graph, accepted := if ret then s.accepted ++ [inEdge] else s.accepted }
  | .reset => pure { graph := s.graph.reset }
  | .getEdge a b => pure (s.lookUp (hashEdgeKey (toUInt64 a) (toUInt64 b)))
  | .getEdgeByKey k => pure (s.lookUp k)

omit [Inhabited ET] in
/-- An accepted edge has this key. -/
def AcceptedKey (s : LookupSession VT ET) (k : UInt64) : Prop :=
  ∃ edge ∈ s.accepted, edgeKey edge.startId edge.endId = k

omit [Inhabited ET] in
instance (s : LookupSession VT ET) (k : UInt64) : Decidable (s.AcceptedKey k) :=
  inferInstanceAs (Decidable (∃ edge ∈ s.accepted, edgeKey edge.startId edge.endId = k))

/-- The edge map holds the accepted edges, and a value-initialised edge under every other key that
was looked up. -/
structure Explained (s : LookupSession VT ET) : Prop where
  entry : ∀ (k : UInt64) (edge : TEdge ET), s.graph.edgeMap[k]? = some edge ↔
    (edge ∈ s.accepted ∧ edgeKey edge.startId edge.endId = k) ∨
      (k ∈ s.lookedUp ∧ ¬ s.AcceptedKey k ∧ edge = default)
  stored : ∀ edge ∈ s.accepted, s.graph.IsPosition edge.startId ∧
    s.graph.IsPosition edge.endId ∧ TDirectedGraph.LoopAllowed s.graph.bDirectSelf edge

section Explained

variable {s : LookupSession VT ET}

theorem new_explained (bDirectSelf : Bool) :
    ({ graph := { bDirectSelf := bDirectSelf } } : LookupSession VT ET).Explained where
  entry k edge := by simp
  stored edge hedge := by simp at hedge

/-- A key is in the map when an accepted edge has it or it was looked up. -/
theorem Explained.isSome_iff (h : s.Explained) (k : UInt64) :
    (∃ edge, s.graph.edgeMap[k]? = some edge) ↔ s.AcceptedKey k ∨ k ∈ s.lookedUp := by
  constructor
  · rintro ⟨edge, hget⟩
    rcases (h.entry k edge).1 hget with ⟨hmem, hkey⟩ | ⟨hlooked, -, -⟩
    · exact Or.inl ⟨edge, hmem, hkey⟩
    · exact Or.inr hlooked
  · intro hk
    by_cases hacc : s.AcceptedKey k
    · rcases hacc with ⟨edge, hmem, hkey⟩
      exact ⟨edge, (h.entry k edge).2 (Or.inl ⟨hmem, hkey⟩)⟩
    · exact ⟨default, (h.entry k default).2 (Or.inr ⟨hk.resolve_left hacc, hacc, rfl⟩)⟩

theorem Explained.addVertex (h : s.Explained) (inVT : VT) :
    ({ s with graph := s.graph.addVertex inVT } : LookupSession VT ET).Explained := by
  refine ⟨h.entry, ?_⟩
  have hpos (id : Int32) (hid : s.graph.IsPosition id) :
      (s.graph.addVertex inVT).IsPosition id := by
    have hlt := hid.2
    refine ⟨hid.1, ?_⟩
    rw [TDirectedGraph.addVertex, List.length_append, List.length_singleton]
    omega
  intro edge hedge
  rcases h.stored edge hedge with ⟨hstart, hend, hloop⟩
  exact ⟨hpos _ hstart, hpos _ hend, hloop⟩

/-- An accepted edge had a key that was neither taken nor looked up. -/
theorem Explained.addEdge (h : s.Explained) {edge : TEdge ET} (hacc : s.graph.Accepts edge) :
    ({ s with graph := (s.graph.addEdge edge).2, accepted := s.accepted ++ [edge] } :
      LookupSession VT ET).Explained := by
  have hfree : ¬ (s.AcceptedKey (edgeKey edge.startId edge.endId) ∨
      edgeKey edge.startId edge.endId ∈ s.lookedUp) := by
    rw [← h.isSome_iff, ← TDirectedGraph.isValidEdge_iff, hacc.new]
    exact Bool.false_ne_true
  have hkey (k : UInt64) : ({ s with
      graph := (s.graph.addEdge edge).2, accepted := s.accepted ++ [edge] } :
        LookupSession VT ET).AcceptedKey k ↔
      s.AcceptedKey k ∨ edgeKey edge.startId edge.endId = k := by
    simp [AcceptedKey, or_and_right, exists_or]
  constructor
  · intro k e
    rw [hkey]
    simp only [TDirectedGraph.addEdge_accepted hacc, Std.ExtTreeMap.getElem?_insert,
      Std.LawfulEqCmp.compare_eq_iff_eq, List.mem_append, List.mem_singleton]
    by_cases hk : edgeKey edge.startId edge.endId = k
    · -- The key of the new edge was free.
      subst hk
      rw [if_pos rfl]
      constructor
      · intro heq
        cases heq
        exact Or.inl ⟨Or.inr rfl, rfl⟩
      · rintro (⟨hmem | rfl, heq⟩ | ⟨hlooked, -⟩)
        · exact absurd (Or.inl ⟨e, hmem, heq⟩) hfree
        · rfl
        · exact absurd (Or.inr hlooked) hfree
    · rw [if_neg hk, h.entry, or_iff_left hk]
      refine or_congr_left (and_congr_left fun heq => ⟨Or.inl, ?_⟩)
      rintro (hmem | rfl)
      · exact hmem
      · exact absurd heq hk
  · intro e he
    have hpos (id : Int32) (hid : s.graph.IsPosition id) :
        (s.graph.addEdge edge).2.IsPosition id := by
      rw [TDirectedGraph.IsPosition, TDirectedGraph.addEdge_vertexArray]
      exact hid
    simp only [TDirectedGraph.addEdge_bDirectSelf]
    rcases List.mem_append.1 he with hold | hnew
    · rcases h.stored e hold with ⟨hstart, hend, hloop⟩
      exact ⟨hpos _ hstart, hpos _ hend, hloop⟩
    · rw [List.mem_singleton.1 hnew]
      exact ⟨hpos _ (TDirectedGraph.isPosition_of_isValidVertexIndex hacc.startId),
        hpos _ (TDirectedGraph.isPosition_of_isValidVertexIndex hacc.endId), hacc.directSelf⟩

theorem lookUp_bDirectSelf (s : LookupSession VT ET) (inKey : UInt64) :
    (s.lookUp inKey).graph.bDirectSelf = s.graph.bDirectSelf := by
  simp only [LookupSession.lookUp, TDirectedGraph.getEdgeByKey]
  split
  · rfl
  · rfl

theorem Explained.lookUp (h : s.Explained) (inKey : UInt64) : (s.lookUp inKey).Explained := by
  cases hget : s.graph.edgeMap[inKey]? with
  | some edge =>
      -- The map stays as it is, and the key was accounted for already.
      have hgraph : (s.lookUp inKey).graph = s.graph := by
        simp only [LookupSession.lookUp, TDirectedGraph.getEdgeByKey, hget]
      have htaken := (h.isSome_iff inKey).1 ⟨edge, hget⟩
      constructor
      · intro k e
        rw [hgraph, h.entry]
        refine or_congr_right (and_congr_left fun hrest => ?_)
        simp only [LookupSession.lookUp, List.mem_append, List.mem_singleton]
        refine ⟨Or.inl, ?_⟩
        rintro (hmem | rfl)
        · exact hmem
        · exact htaken.resolve_left hrest.1
      · rw [hgraph]
        exact h.stored
  | none =>
      have hgraph : (s.lookUp inKey).graph =
          { s.graph with edgeMap := s.graph.edgeMap.insert inKey default } := by
        simp only [LookupSession.lookUp, TDirectedGraph.getEdgeByKey, hget]
      have hfree : ¬ (s.AcceptedKey inKey ∨ inKey ∈ s.lookedUp) := by
        rw [← h.isSome_iff, hget]
        simp
      constructor
      · intro k e
        rw [hgraph, Std.ExtTreeMap.getElem?_insert]
        simp only [Std.LawfulEqCmp.compare_eq_iff_eq, LookupSession.lookUp, List.mem_append,
          List.mem_singleton]
        by_cases hk : inKey = k
        · subst hk
          rw [if_pos rfl]
          constructor
          · intro heq
            cases heq
            exact Or.inr ⟨Or.inr rfl, fun hacc => hfree (Or.inl hacc), rfl⟩
          · rintro (⟨hmem, heq⟩ | ⟨-, -, rfl⟩)
            · exact absurd (Or.inl ⟨e, hmem, heq⟩) hfree
            · rfl
        · rw [if_neg hk, h.entry]
          refine or_congr_right (and_congr_left fun _ => ?_)
          exact (or_iff_left fun heq => hk heq.symm).symm
      · rw [hgraph]
        exact h.stored

theorem step_explained (h : s.Explained) (op : LookupOp VT ET) :
    ∃ s', s.step op = .ok s' ∧ s'.Explained ∧ s'.graph.bDirectSelf = s.graph.bDirectSelf := by
  cases op with
  | addVertex inVT => exact ⟨_, rfl, h.addVertex inVT, rfl⟩
  | addEdge inEdge =>
      by_cases hacc : s.graph.Accepts inEdge
      · refine ⟨_, ?_, h.addEdge hacc, TDirectedGraph.addEdge_bDirectSelf s.graph inEdge⟩
        simp only [step, TDirectedGraph.addEdge_accepted hacc, if_true, Checked.pure_eq_ok]
      · refine ⟨s, ?_, h, rfl⟩
        simp only [step, TDirectedGraph.addEdge_refused hacc, Bool.false_eq_true, if_false,
          Checked.pure_eq_ok]
  | reset => exact ⟨_, rfl, new_explained s.graph.bDirectSelf, rfl⟩
  | getEdge a b => exact ⟨_, rfl, h.lookUp _, lookUp_bDirectSelf s _⟩
  | getEdgeByKey k => exact ⟨_, rfl, h.lookUp k, lookUp_bDirectSelf s k⟩

/-- An edge is found between two ids when it was accepted, or when its key was looked up. -/
theorem Explained.isValidEdge_iff (h : s.Explained) (a b : Int32) :
    s.graph.isValidEdge a b = true ↔
      (∃ edge ∈ s.accepted, edge.startId = a ∧ edge.endId = b) ∨ edgeKey a b ∈ s.lookedUp := by
  rw [TDirectedGraph.isValidEdge_iff, h.isSome_iff]
  refine or_congr_left ⟨?_, ?_⟩
  · rintro ⟨edge, hmem, hkey⟩
    -- The ids of an accepted edge are not negative, so its key is the key of no other ids.
    rcases h.stored edge hmem with ⟨hstart, hend, -⟩
    rcases (edgeKey_inj hstart.1 hend.1).1 hkey.symm with ⟨rfl, rfl⟩
    exact ⟨edge, hmem, rfl, rfl⟩
  · rintro ⟨edge, hmem, rfl, rfl⟩
    exact ⟨edge, hmem, rfl⟩

omit [Inhabited ET] in
/-- A graph that allows loops keeps one of what lookups have inserted: a value-initialised edge is a
loop at the vertex `0`, if there is a vertex and no accepted edge takes its place. -/
def LeavesLoop (s : LookupSession VT ET) : Prop :=
  s.graph.bDirectSelf = true ∧ s.graph.vertexArray ≠ [] ∧
    (∃ k ∈ s.lookedUp, ¬ s.AcceptedKey k) ∧ ¬ s.AcceptedKey (edgeKey 0 0)

variable [Inhabited VT]

theorem Explained.admits_accepted (h : s.Explained) {edge : TEdge ET} (hmem : edge ∈ s.accepted) :
    ({ bDirectSelf := s.graph.bDirectSelf, vertexArray := s.graph.reloadedVertices } :
      TDirectedGraph VT ET).Admits edge := by
  rcases h.stored edge hmem with ⟨hstart, hend, hloop⟩
  have hstartLt := hstart.2
  have hendLt := hend.2
  have hlen := s.graph.length_reloadedVertices
  exact ⟨hloop, ⟨hstart.1, by dsimp only; omega⟩, hend.1, by dsimp only; omega⟩

theorem admits_default_iff (s : LookupSession VT ET) :
    ({ bDirectSelf := s.graph.bDirectSelf, vertexArray := s.graph.reloadedVertices } :
      TDirectedGraph VT ET).Admits default ↔
        s.graph.bDirectSelf = true ∧ s.graph.vertexArray ≠ [] := by
  have hlen := s.graph.length_reloadedVertices
  constructor
  · rintro ⟨hloop, hposition, -⟩
    have hpos : (0 : Int) < s.graph.reloadedVertices.length := hposition.2
    refine ⟨hloop.resolve_left fun hne => hne rfl, ?_⟩
    rw [← List.length_pos_iff]
    omega
  · rintro ⟨hflag, hne⟩
    have hpos := List.length_pos_iff.2 hne
    have hposition : (0 : Int) < s.graph.reloadedVertices.length := by omega
    exact ⟨.inr hflag, ⟨Int.le_refl 0, hposition⟩, Int.le_refl 0, hposition⟩

/-- An accepted edge is loaded: its key is that of no other accepted edge, and the key of the
value-initialised ones is the least of all, so none of them is saved in front of it. -/
theorem Explained.reloaded_accepted (h : s.Explained)
    (hvertices : 2 * s.graph.vertexArray.length < 2 ^ 31) {edge : TEdge ET}
    (hmem : edge ∈ s.accepted) :
    s.graph.reloaded.edgeMap[edgeKey edge.startId edge.endId]? = some edge := by
  have hsize : s.graph.reloadedVertices.length < 2 ^ 31 := by
    rwa [TDirectedGraph.length_reloadedVertices]
  have hget := (h.entry (edgeKey edge.startId edge.endId) edge).2 (Or.inl ⟨hmem, rfl⟩)
  refine TDirectedGraph.addEdges_toList_of_first hsize rfl hget rfl (h.admits_accepted hmem) ?_
  rintro k other hother hless ⟨hkey, -⟩
  rcases (h.entry k other).1 hother with ⟨-, hown⟩ | ⟨-, -, rfl⟩
  · rw [← hown, hkey] at hless
    exact UInt64.lt_irrefl _ hless
  · have hzero : edgeKey 0 0 = 0 := by decide
    rw [hkey.symm.trans hzero] at hless
    exact UInt64.not_lt_zero hless

/-- What is loaded are the accepted edges, and perhaps the one loop. -/
theorem Explained.reloaded_iff (h : s.Explained)
    (hvertices : 2 * s.graph.vertexArray.length < 2 ^ 31) (k : UInt64) (edge : TEdge ET) :
    s.graph.reloaded.edgeMap[k]? = some edge ↔
      (edge ∈ s.accepted ∧ edgeKey edge.startId edge.endId = k) ∨
        (s.LeavesLoop ∧ k = edgeKey 0 0 ∧ edge = default) := by
  have hsize : s.graph.reloadedVertices.length < 2 ^ 31 := by
    rwa [TDirectedGraph.length_reloadedVertices]
  constructor
  · intro hget
    rcases TDirectedGraph.of_addEdges_toList hsize rfl hget with ⟨hkey, hadmits, k', hold⟩
    rcases (h.entry k' edge).1 hold with ⟨hmem, -⟩ | ⟨hlooked, hnot, rfl⟩
    · exact Or.inl ⟨hmem, hkey⟩
    · rcases s.admits_default_iff.1 hadmits with ⟨hflag, hne⟩
      by_cases hacc : s.AcceptedKey (edgeKey 0 0)
      · -- The accepted loop would have been loaded, so it is this one.
        rcases hacc with ⟨loop, hmem, hloop⟩
        have hloaded := h.reloaded_accepted hvertices hmem
        rw [hloop.trans hkey, hget] at hloaded
        exact Or.inl ⟨Option.some.inj hloaded ▸ hmem, hkey⟩
      · exact Or.inr ⟨⟨hflag, hne, ⟨k', hlooked, hnot⟩, hacc⟩, hkey.symm, rfl⟩
  · rintro (⟨hmem, rfl⟩ | ⟨⟨hflag, hne, ⟨k', hlooked, hnot⟩, hnone⟩, rfl, rfl⟩)
    · exact h.reloaded_accepted hvertices hmem
    · -- An edge with this key is loaded, and it is not an accepted one.
      have hold := (h.entry k' default).2 (Or.inr ⟨hlooked, hnot, rfl⟩)
      rcases TDirectedGraph.exists_addEdges_toList hsize rfl hold
        (s.admits_default_iff.2 ⟨hflag, hne⟩) with ⟨kept, hkept⟩
      rcases TDirectedGraph.of_addEdges_toList hsize rfl hkept with ⟨hkey, -, k'', hkeptOld⟩
      rcases (h.entry k'' kept).1 hkeptOld with ⟨hmem, -⟩ | ⟨-, -, rfl⟩
      · exact absurd ⟨kept, hmem, hkey⟩ hnone
      · exact hkept

end Explained

/-! ## Runs -/

theorem run_keeps_explained (bDirectSelf : Bool) (ops : List (LookupOp VT ET)) :
    ∃ s, run step ({ graph := { bDirectSelf := bDirectSelf } } : LookupSession VT ET) ops =
      .ok s ∧ s.Explained ∧ s.graph.bDirectSelf = bDirectSelf := by
  have hstep (s : LookupSession VT ET) (op : LookupOp VT ET)
      (h : s.Explained ∧ s.graph.bDirectSelf = bDirectSelf) (_ : True) :
      ∃ s', s.step op = .ok s' ∧ s'.Explained ∧ s'.graph.bDirectSelf = bDirectSelf := by
    rcases step_explained h.1 op with ⟨s', hs', hexplained, hflag⟩
    exact ⟨s', hs', hexplained, hflag.trans h.2⟩
  exact run_keeps (P := fun _ _ => True) hstep ⟨new_explained bDirectSelf, rfl⟩
    (along_of_forall (P := fun _ => True) _ fun _ _ => trivial)

/-- After every run, with whatever lookups: the edge map holds the accepted edges and a
value-initialised edge under every other key that was looked up; both are found by `IsValidEdge`,
and an edge whose key was looked up before it was added is refused. -/
theorem run_explained (bDirectSelf : Bool) (ops : List (LookupOp VT ET)) :
    ∃ s, run step ({ graph := { bDirectSelf := bDirectSelf } } : LookupSession VT ET) ops =
      .ok s ∧
      (∀ (k : UInt64) (edge : TEdge ET), s.graph.edgeMap[k]? = some edge ↔
        (edge ∈ s.accepted ∧ edgeKey edge.startId edge.endId = k) ∨
          (k ∈ s.lookedUp ∧ ¬ s.AcceptedKey k ∧ edge = default)) ∧
      (∀ a b : Int32, s.graph.isValidEdge a b = true ↔
        (∃ edge ∈ s.accepted, edge.startId = a ∧ edge.endId = b) ∨ edgeKey a b ∈ s.lookedUp) ∧
      (∀ edge : TEdge ET, (s.graph.addEdge edge).1 = true ↔
        TDirectedGraph.LoopAllowed bDirectSelf edge ∧
        s.graph.isValidVertexIndex edge.startId = true ∧
        s.graph.isValidVertexIndex edge.endId = true ∧
        (¬ ∃ old ∈ s.accepted, old.startId = edge.startId ∧ old.endId = edge.endId) ∧
        edgeKey edge.startId edge.endId ∉ s.lookedUp) := by
  rcases run_keeps_explained bDirectSelf ops with ⟨s, hrun, h, hflag⟩
  refine ⟨s, hrun, h.entry, h.isValidEdge_iff, ?_⟩
  intro edge
  have hnew : s.graph.isValidEdge edge.startId edge.endId = false ↔
      (¬ ∃ old ∈ s.accepted, old.startId = edge.startId ∧ old.endId = edge.endId) ∧
        edgeKey edge.startId edge.endId ∉ s.lookedUp := by
    rw [← not_or, ← h.isValidEdge_iff, Bool.not_eq_true]
  rw [TDirectedGraph.addEdge_fst_iff, ← hflag, ← hnew]
  exact ⟨fun hacc => ⟨hacc.directSelf, hacc.startId, hacc.endId, hacc.new⟩,
    fun hacc => ⟨hacc.1, hacc.2.1, hacc.2.2.1, hacc.2.2.2⟩⟩

/-- Saving a graph and loading it drops what lookups have inserted, with the exception of one loop
at the vertex `0`: the loaded graph has exactly the accepted edges, each under its own key, and this
loop if there is a vertex, loops are allowed, a key without an accepted edge was looked up and no
accepted edge is this loop. -/
theorem reload_heals [TriviallyCopyable VT] [TriviallyCopyable ET] [Inhabited VT]
    (bDirectSelf : Bool) (ops : List (LookupOp VT ET)) (s : LookupSession VT ET)
    (hrun : run step { graph := { bDirectSelf := bDirectSelf } } ops = .ok s)
    (op : TDirectedGraph.Reload VT ET) (hfits : s.graph.Fits op) :
    ∃ g, s.graph.reload op = .ok g ∧ g.WellFormed ∧ g.bDirectSelf = bDirectSelf ∧
      (∀ (k : UInt64) (edge : TEdge ET), g.edgeMap[k]? = some edge ↔
        (edge ∈ s.accepted ∧ edgeKey edge.startId edge.endId = k) ∨
          (s.LeavesLoop ∧ k = edgeKey 0 0 ∧ edge = default)) ∧
      ∀ a b : Int32, g.isValidEdge a b = true ↔
        (∃ edge ∈ s.accepted, edge.startId = a ∧ edge.endId = b) ∨
          (s.LeavesLoop ∧ a = 0 ∧ b = 0) := by
  rcases run_keeps_explained bDirectSelf ops with ⟨t, ht, h, hflag⟩
  rw [hrun] at ht
  cases ht
  have hentry := h.reloaded_iff hfits.vertices
  refine ⟨_, TDirectedGraph.reload_reloaded hfits, s.graph.reloaded_wellFormed,
    (s.graph.reloaded_bDirectSelf).trans hflag, hentry, ?_⟩
  intro a b
  rw [TDirectedGraph.isValidEdge_iff]
  simp only [hentry]
  constructor
  · rintro ⟨edge, ⟨hmem, hkey⟩ | ⟨hloop, hkey, -⟩⟩
    · rcases h.stored edge hmem with ⟨hstart, hend, -⟩
      rcases (edgeKey_inj hstart.1 hend.1).1 hkey.symm with ⟨rfl, rfl⟩
      exact Or.inl ⟨edge, hmem, rfl, rfl⟩
    · have hzero : 0 ≤ (0 : Int32).toInt := Int.le_refl 0
      rcases (edgeKey_inj hzero hzero).1 hkey with ⟨rfl, rfl⟩
      exact Or.inr ⟨hloop, rfl, rfl⟩
  · rintro (⟨edge, hmem, rfl, rfl⟩ | ⟨hloop, rfl, rfl⟩)
    · exact ⟨edge, Or.inl ⟨hmem, rfl⟩⟩
    · exact ⟨default, Or.inr ⟨hloop, rfl, rfl⟩⟩

/-- An edge that was looked up before it was added, and one that was not, in a graph that allows
loops. -/
theorem reload_heals_sample :
    ∃ (s : LookupSession UInt8 UInt8) (g : TDirectedGraph UInt8 UInt8),
      run step { graph := { bDirectSelf := true } } [.addVertex 5, .addVertex 6, .getEdge 1 0,
        .addEdge ⟨1, 0, 3⟩, .addEdge ⟨0, 1, 7⟩] = .ok s ∧
      s.graph.reload ⟨List.replicate 60 0, {}⟩ = .ok g ∧
      s.graph.isValidEdge 1 0 = true ∧ ¬ g.isValidEdge 1 0 = true ∧ g.isValidEdge 0 0 = true := by
  have hrun : run step ({ graph := { bDirectSelf := true } } : LookupSession UInt8 UInt8)
      [.addVertex 5, .addVertex 6, .getEdge 1 0, .addEdge ⟨1, 0, 3⟩, .addEdge ⟨0, 1, 7⟩] =
        .ok _ := rfl
  rcases reload_heals true _ _ hrun ⟨List.replicate 60 0, {}⟩ ⟨by decide, by decide, by decide⟩
    with ⟨g, hreload, -, -, -, hvalid⟩
  refine ⟨_, g, hrun, hreload, by decide, ?_, (hvalid 0 0).2 (Or.inr ⟨?_, rfl, rfl⟩)⟩
  · rw [hvalid 1 0]
    rintro (hedge | ⟨-, hone, -⟩)
    · exact absurd hedge (by decide)
    · exact absurd hone (by decide)
  · exact ⟨rfl, by decide, ⟨edgeKey 1 0, by decide, by decide⟩, by decide⟩

end LookupSession

end Septem
