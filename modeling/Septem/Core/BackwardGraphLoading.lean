import Septem.Core.BackwardGraphAlignment
import Septem.Core.GraphReloading

/-!
# BackwardGraphLoading — `TBackwardGraph` loaded from bytes of any origin

After `Deseriallize` the parent table of a `TBackwardGraph` has fewer entries than the vertex table
(`BackwardGraphAlignment`).  `Mirrored` is what remains true: every list there is holds exactly the
vertices with an edge to its position, and every edge ends at a position that has a list.

* `inv_of_deseriallize` is the invariant rule of `Deseriallize`, for any class and any bytes;
* `run_mirrored` says that no run breaks `Mirrored`, and when `AddEdge` leaves the table;
* `deseriallize_saved` is the object that loading a saved graph gives, in full.
-/

namespace Septem

open Cxx

variable {VT ET : Type}

/-! ## The invariant rule of `Deseriallize` -/

namespace TDirectedGraph

variable [TriviallyCopyable VT] [TriviallyCopyable ET] [Inhabited VT]

/-- A loaded object has what the object without edges has and `AddEdge` keeps. -/
theorem inv_of_deseriallize {G : Type} {cls : GraphClass G VT ET} {Empty Inv : G → Prop}
    {this this' : G} {inBuffer : Bytes} {inSize : UInt64}
    (hstart : ∀ (bDirectSelf : Bool) (vertexArray : List (TVertex VT)),
      Empty (presized cls this bDirectSelf vertexArray))
    (hvertex : ∀ (g : G) (inVT : VT) (g' : G), Empty g → cls.addVertex g inVT = .ok g' → Empty g')
    (hclear : ∀ g : G, Empty g → Inv (cls.withBase g { cls.base g with edgeMap := ∅ }))
    (hedge : ∀ (g : G) (edge : TEdge ET) (ret : Bool) (g' : G), Inv g →
      cls.addEdge g edge = .ok (ret, g') → Inv g')
    (h : deseriallize cls this inBuffer inSize = .ok this') : Inv this' := by
  rw [deseriallize_phases] at h
  rcases Checked.bind_eq_ok.1 h with ⟨flag, -, h₁⟩
  rcases Checked.bind_eq_ok.1 h₁ with ⟨vertexCount, -, h₂⟩
  rcases Checked.bind_eq_ok.1 h₂ with ⟨vertexArray, -, h₃⟩
  rcases Checked.bind_eq_ok.1 h₃ with ⟨loaded, hvertices, h₄⟩
  rcases Checked.bind_eq_ok.1 h₄ with ⟨edgeCount, -, h₅⟩
  rcases Checked.bind_eq_ok.1 h₅ with ⟨edgekeys, -, h₆⟩
  rcases Checked.bind_eq_ok.1 h₆ with ⟨final, hedges, hret⟩
  cases hret
  have hloaded : Empty loaded.1 :=
    inv_of_fetchLoop (fun g vertex g' hg hadd => hvertex g vertex.value g' hg hadd)
      (hstart flag.1 vertexArray) hvertices
  refine inv_of_fetchLoop ?_ (hclear loaded.1 hloaded) hedges
  intro g edge g' hg hadd
  rcases Checked.bind_eq_ok.1 hadd with ⟨⟨ret, added⟩, hret, hsame⟩
  cases hsame
  exact hedge g edge ret added hg hret

/-- Seen as a `TDirectedGraph`, an object of any class becomes what a `TDirectedGraph` becomes when
it is loaded from the same bytes. -/
theorem base_deseriallize {G : Type} {cls : GraphClass G VT ET} {this this' : G}
    {inBuffer : Bytes} {inSize : UInt64}
    (h : deseriallize cls this inBuffer inSize = .ok this') (other : TDirectedGraph VT ET) :
    deseriallize graphClass other inBuffer inSize = .ok (cls.base this') := by
  rw [deseriallize_phases] at h
  rcases Checked.bind_eq_ok.1 h with ⟨flag, hflag, h₁⟩
  rcases Checked.bind_eq_ok.1 h₁ with ⟨vertexCount, hcount, h₂⟩
  rcases Checked.bind_eq_ok.1 h₂ with ⟨vertexArray, hresize, h₃⟩
  rcases Checked.bind_eq_ok.1 h₃ with ⟨loaded, hvertices, h₄⟩
  rcases Checked.bind_eq_ok.1 h₄ with ⟨edgeCount, hedgeCount, h₅⟩
  rcases Checked.bind_eq_ok.1 h₅ with ⟨edgekeys, hkeys, h₆⟩
  rcases Checked.bind_eq_ok.1 h₆ with ⟨final, hedges, hret⟩
  cases hret
  -- Every round with a virtual call is followed by the base class.
  have hvertexBody (g : G) (vertex : TVertex VT) (g' : G)
      (hadd : cls.addVertex g vertex.value = .ok g') :
      graphClass.addVertex (cls.base g) vertex.value = .ok (cls.base g') := by
    rw [cls.base_addVertex _ _ _ hadd]
    rfl
  have hedgeBody (g : G) (edge : TEdge ET) (g' : G)
      (hadd : (cls.addEdge g edge >>= fun added => pure added.2) = .ok g') :
      (graphClass.addEdge (cls.base g) edge >>= fun added => pure added.2) =
        .ok (cls.base g') := by
    rcases Checked.bind_eq_ok.1 hadd with ⟨⟨ret, added⟩, hret, hsame⟩
    cases hsame
    have hadded : graphClass.addEdge (cls.base g) edge = .ok (ret, cls.base added) :=
      congrArg Except.ok (cls.base_addEdge _ _ _ _ hret).symm
    rw [hadded]
    rfl
  have hvertexLoop : fetchLoop
      (fun this (vertex : TVertex VT) => graphClass.addVertex this vertex.value)
      vertexCount.1.toInt.toNat (cls.base (presized cls this flag.1 vertexArray)) vertexCount.2 =
        .ok (cls.base loaded.1, loaded.2) := fetchLoop_follows hvertexBody hvertices
  have hedgeLoop : fetchLoop (fun this (edge : TEdge ET) =>
      graphClass.addEdge this edge >>= fun added => pure added.2) edgeCount.1.toInt.toNat
      (cls.base (cls.withBase loaded.1 { cls.base loaded.1 with edgeMap := ∅ })) edgekeys.2 =
        .ok (cls.base final.1, final.2) := fetchLoop_follows hedgeBody hedges
  rw [presized, cls.base_withBase] at hvertexLoop
  rw [cls.base_withBase] at hedgeLoop
  have hpresized : presized graphClass other flag.1 vertexArray =
      { bDirectSelf := flag.1, vertexArray, edgeMap := ∅ } := rfl
  simp only [deseriallize_phases, hflag, hcount, hresize, hpresized, hvertexLoop, hedgeCount,
    hkeys, Checked.ok_bind]
  change (fetchLoop (fun this (edge : TEdge ET) =>
    graphClass.addEdge this edge >>= fun added => pure added.2) edgeCount.1.toInt.toNat
      { cls.base loaded.1 with edgeMap := ∅ } edgekeys.2 >>= fun final => pure final.1) = _
  rw [hedgeLoop]
  rfl

end TDirectedGraph

/-! ## Parent lists -/

namespace TBackwardGraph

/-- The lists there are hold the vertices with an edge to their position, and every edge ends at
one of them. -/
structure Mirrored (this : TBackwardGraph VT ET) : Prop where
  keyed : this.Keyed
  mem_iff : ∀ (v : Nat) (eal : EdgeAdjustList), this.parentEdges[v]? = some eal →
    ∀ u : Int32, u ∈ eal.adjustVertexes ↔ HasEdge this.toTDirectedGraph u v
  inside : ∀ (k : UInt64) (edge : TEdge ET), this.edgeMap[k]? = some edge →
    edge.endId.toInt < this.parentEdges.length
  length_le : this.parentEdges.length ≤ this.vertexArray.length

section Mirrored

variable {this this' : TBackwardGraph VT ET}

/-- No edge ends at a position without a list. -/
theorem Mirrored.not_hasEdge (h : this.Mirrored) {v : Nat} (hv : this.parentEdges.length ≤ v)
    (u : Int32) : ¬ HasEdge this.toTDirectedGraph u v := by
  rintro ⟨edge, hget, -, hend⟩
  have hlt := h.inside _ edge hget
  omega

/-- Without edges all lists have to be empty. -/
theorem mirrored_of_noEdges (hmap : this.edgeMap = ∅)
    (hlists : ∀ eal ∈ this.parentEdges, eal.adjustVertexes = ∅)
    (hlen : this.parentEdges.length ≤ this.vertexArray.length) : this.Mirrored := by
  have hnone (k : UInt64) (edge : TEdge ET) : this.edgeMap[k]? ≠ some edge := by
    rw [hmap, Std.ExtTreeMap.getElem?_empty]
    simp
  refine ⟨⟨?_, ?_⟩, ?_, ?_, hlen⟩
  · intro k edge hget
    exact absurd hget (hnone k edge)
  · intro k edge hget
    exact absurd hget (hnone k edge)
  · intro v eal heal u
    rw [hlists eal (List.mem_of_getElem? heal)]
    refine iff_of_false (by simp) ?_
    rintro ⟨edge, hget, -⟩
    exact hnone _ edge hget
  · intro k edge hget
    exact absurd hget (hnone k edge)

theorem addVertex_mirrored (h : this.Mirrored) (inVT : VT) : (this.addVertex inVT).Mirrored := by
  have hlen : (this.addVertex inVT).parentEdges.length = this.parentEdges.length + 1 := by
    simp [addVertex]
  refine ⟨TDirectedGraph.addVertex_keyed h.keyed inVT, ?_, ?_, ?_⟩
  · intro v eal heal u
    simp only [addVertex] at heal
    rcases Nat.lt_or_ge v this.parentEdges.length with hlt | hge
    · rw [List.getElem?_append_left hlt] at heal
      exact h.mem_iff v eal heal u
    · -- The new list is empty, and no edge ends at its position.
      rw [List.getElem?_append_right hge, List.getElem?_singleton] at heal
      split at heal
      · cases heal
        exact iff_of_false (by simp [EdgeAdjustList.new]) (h.not_hasEdge hge u)
      · cases heal
  · intro k edge hget
    have hlt := h.inside k edge hget
    rw [hlen]
    omega
  · have hle := h.length_le
    rw [hlen]
    simp only [addVertex, TDirectedGraph.addVertex, List.length_append, List.length_singleton]
    omega

theorem addEdge_mirrored (h : this.Mirrored) {edge : TEdge ET} {ret : Bool}
    (hadd : this.addEdge edge = .ok (ret, this')) : this'.Mirrored := by
  have hlen := addEdge_length hadd
  -- A refused edge changes nothing; an accepted one goes into the map and one list.
  rcases addEdge_cases hadd with ⟨-, -, rfl⟩ | ⟨-, hacc, t, old, ht, hold, rfl⟩
  · exact h
  · have htlt : t < this.parentEdges.length := (List.getElem?_eq_some_iff.1 hold).1
    refine ⟨TDirectedGraph.addEdge_keyed h.keyed edge, ?_, ?_, ?_⟩
    · intro v eal hget u
      rw [hasEdge_insert hacc, ht]
      -- Only the list of the end `t` has changed, by the start of the new edge.
      by_cases hv : v = t
      · subst hv
        rw [List.getElem?_set_self htlt] at hget
        cases hget
        rw [Std.ExtTreeSet.mem_insert, h.mem_iff v old hold u]
        simp
      · rw [List.getElem?_set_ne (fun heq => hv heq.symm)] at hget
        rw [h.mem_iff v eal hget u, or_iff_right]
        intro hnew
        exact hv (Int.ofNat_inj.1 hnew.2).symm
    · intro k e hget
      rw [hlen]
      simp only [TDirectedGraph.addEdge_accepted hacc, Std.ExtTreeMap.getElem?_insert] at hget
      split at hget
      · cases hget
        rw [ht]
        exact Int.ofNat_lt.2 htlt
      · exact h.inside k e hget
    · rw [hlen, TDirectedGraph.addEdge_vertexArray]
      exact h.length_le

/-- `AddEdge` leaves the parent table exactly for an acceptable edge whose end has no list. -/
theorem addEdge_fault_iff (edge : TEdge ET) :
    this.addEdge edge = .error .outOfBounds ↔
      this.Accepts edge ∧ this.parentEdges.length ≤ edge.endId.toInt := by
  by_cases hacc : this.Accepts edge
  · have hend := TDirectedGraph.isPosition_of_isValidVertexIndex hacc.endId
    rw [addEdge_accepted hacc]
    by_cases hlt : edge.endId.toInt < this.parentEdges.length
    · rcases elementAt_ok hend.1 hlt with ⟨eal, heal⟩
      rw [heal]
      exact iff_of_false nofun fun hright => absurd hright.2 (Int.not_le.2 hlt)
    · refine iff_of_true ?_ ⟨hacc, Int.not_lt.1 hlt⟩
      cases heal : elementAt this.parentEdges edge.endId.toInt with
      | error fault =>
          rw [elementAt_fault heal]
          rfl
      | ok eal =>
          rcases elementAt_inv heal with ⟨i, hi, hget⟩
          have hilt := (List.getElem?_eq_some_iff.1 hget).1
          omega
  · rw [addEdge_refused hacc]
    exact iff_of_false nofun fun hright => hacc hright.1

end Mirrored

/-! ## Runs -/

variable [TriviallyCopyable VT] [TriviallyCopyable ET] [Inhabited VT]

/-- A loaded graph is mirrored, whatever the bytes say. -/
theorem deseriallize_mirrored {this this' : TBackwardGraph VT ET} {inBuffer : Bytes}
    {inSize : UInt64}
    (h : TDirectedGraph.deseriallize graphClass this inBuffer inSize = .ok this') :
    this'.Mirrored := by
  -- Until the edges are read there are none, and all lists are empty.
  let Empty (g : TBackwardGraph VT ET) : Prop :=
    g.edgeMap = ∅ ∧ (∀ eal ∈ g.parentEdges, eal.adjustVertexes = ∅) ∧
      g.parentEdges.length ≤ g.vertexArray.length
  have hstart (bDirectSelf : Bool) (vertexArray : List (TVertex VT)) :
      Empty (TDirectedGraph.presized graphClass this bDirectSelf vertexArray) :=
    ⟨rfl, fun eal heal => absurd heal (List.not_mem_nil), Nat.zero_le _⟩
  have hvertex (g : TBackwardGraph VT ET) (inVT : VT) (g' : TBackwardGraph VT ET) (hg : Empty g)
      (hadd : graphClass.addVertex g inVT = .ok g') : Empty g' := by
    cases hadd
    refine ⟨hg.1, ?_, ?_⟩
    · intro eal heal
      rcases List.mem_append.1 heal with hold | hnew
      · exact hg.2.1 eal hold
      · rw [List.mem_singleton.1 hnew]
        rfl
    · simpa [addVertex, TDirectedGraph.addVertex] using hg.2.2
  have hclear (g : TBackwardGraph VT ET) (hg : Empty g) :
      (graphClass.withBase g { graphClass.base g with edgeMap := ∅ }).Mirrored :=
    mirrored_of_noEdges rfl hg.2.1 hg.2.2
  have hedge (g : TBackwardGraph VT ET) (edge : TEdge ET) (ret : Bool) (g' : TBackwardGraph VT ET)
      (hg : g.Mirrored) (hadd : graphClass.addEdge g edge = .ok (ret, g')) : g'.Mirrored :=
    addEdge_mirrored hg hadd
  exact TDirectedGraph.inv_of_deseriallize hstart hvertex hclear hedge h

/-- The operations on a `TBackwardGraph`; any bytes may be loaded. -/
def loadStep (this : TBackwardGraph VT ET) :
    TDirectedGraph.LoadOp VT ET → Checked (TBackwardGraph VT ET)
  | .addVertex inVT => pure (this.addVertex inVT)
  | .addEdge inEdge => do
      let (_, this) ← this.addEdge inEdge
      return this
  | .reset => pure this.reset
  | .deseriallize inBuffer inSize => TDirectedGraph.deseriallize graphClass this inBuffer inSize

theorem loadStep_mirrored {this this' : TBackwardGraph VT ET} (h : this.Mirrored)
    {op : TDirectedGraph.LoadOp VT ET} (hstep : this.loadStep op = .ok this') :
    this'.Mirrored := by
  cases op with
  | addVertex inVT =>
      cases hstep
      exact addVertex_mirrored h inVT
  | addEdge inEdge =>
      rcases Checked.bind_eq_ok.1 hstep with ⟨⟨ret, added⟩, hadd, hret⟩
      cases hret
      exact addEdge_mirrored h hadd
  | reset =>
      cases hstep
      exact mirrored_of_noEdges rfl nofun (Nat.le_refl _)
  | deseriallize inBuffer inSize =>
      have hload : TDirectedGraph.deseriallize graphClass this inBuffer inSize = .ok this' := hstep
      exact deseriallize_mirrored hload

/-- In every state that a run reaches, whatever bytes it loads: a parent list holds exactly the
vertices with an edge to its position, every edge is in the list of its end, and `AddEdge` leaves
the parent table exactly for an acceptable edge whose end has no list, and returns otherwise. -/
theorem run_mirrored (bDirectSelf : Bool) (ops : List (TDirectedGraph.LoadOp VT ET))
    (this : TBackwardGraph VT ET)
    (hrun : run loadStep { bDirectSelf := bDirectSelf } ops = .ok this) :
    (∀ (v : Nat) (eal : EdgeAdjustList), this.parentEdges[v]? = some eal →
      ∀ u : Int32, u ∈ eal.adjustVertexes ↔ HasEdge this.toTDirectedGraph u v) ∧
    (∀ (k : UInt64) (edge : TEdge ET), this.edgeMap[k]? = some edge →
      ∃ eal, elementAt this.parentEdges edge.endId.toInt = .ok eal ∧
        edge.startId ∈ eal.adjustVertexes) ∧
    this.parentEdges.length ≤ this.vertexArray.length ∧
    ∀ edge : TEdge ET,
      (this.addEdge edge = .error .outOfBounds ↔
        this.Accepts edge ∧ this.parentEdges.length ≤ edge.endId.toInt) ∧
      ((∃ r, this.addEdge edge = .ok r) ∨ this.addEdge edge = .error .outOfBounds) := by
  have hstart : ({ bDirectSelf := bDirectSelf } : TBackwardGraph VT ET).Mirrored :=
    mirrored_of_noEdges rfl nofun (Nat.le_refl _)
  have hkeep (s : TBackwardGraph VT ET) (op : TDirectedGraph.LoadOp VT ET)
      (s' : TBackwardGraph VT ET) (hs : s.Mirrored) (_ : True) (hstep : s.loadStep op = .ok s') :
      s'.Mirrored := loadStep_mirrored hs hstep
  have h : this.Mirrored := inv_of_run hkeep hstart (fun _ _ => trivial) hrun
  refine ⟨h.mem_iff, ?_, h.length_le, ?_⟩
  · intro k edge hget
    rcases elementAt_ok (h.keyed.ends k edge hget).2.1 (h.inside k edge hget) with ⟨eal, heal⟩
    rcases elementAt_inv heal with ⟨v, hv, hlist⟩
    refine ⟨eal, heal, (h.mem_iff v eal hlist edge.startId).2 ⟨edge, ?_, rfl, hv⟩⟩
    rw [← h.keyed.key k edge hget]
    exact hget
  · intro edge
    refine ⟨addEdge_fault_iff edge, ?_⟩
    cases hadd : this.addEdge edge with
    | ok r => exact Or.inl ⟨r, rfl⟩
    | error fault =>
        obtain rfl := addEdge_fault hadd
        exact Or.inr rfl

/-- Two vertices and an edge, loaded from bytes, and an edge to a vertex without a list. -/
theorem run_mirrored_loaded :
    ∃ this : TBackwardGraph UInt8 UInt8,
      run loadStep {} [.deseriallize ([0] ++ [2, 0, 0, 0] ++ [0, 0, 0, 0, 5] ++ [1, 0, 0, 0, 6] ++
        [1, 0, 0, 0] ++ List.replicate 8 255 ++ [0, 0, 0, 0, 1, 0, 0, 0, 9]) 36, .addVertex 7] =
          .ok this ∧
      (∃ eal, this.parentEdges[1]? = some eal ∧ ((0 : Int32) ∈ eal.adjustVertexes ↔
        HasEdge this.toTDirectedGraph 0 1)) ∧
      this.addEdge ⟨0, 4, 3⟩ = .error .outOfBounds ∧
      this.addEdge ⟨1, 0, 3⟩ ≠ .error .outOfBounds := by
  have hrun : run loadStep ({} : TBackwardGraph UInt8 UInt8) [.deseriallize ([0] ++ [2, 0, 0, 0] ++
      [0, 0, 0, 0, 5] ++ [1, 0, 0, 0, 6] ++ [1, 0, 0, 0] ++ List.replicate 8 255 ++
      [0, 0, 0, 0, 1, 0, 0, 0, 9]) 36, .addVertex 7] = .ok _ := rfl
  rcases run_mirrored false _ _ hrun with ⟨hmirrored, -, -, hfault⟩
  refine ⟨_, hrun, ⟨_, rfl, hmirrored 1 _ rfl 0⟩, (hfault ⟨0, 4, 3⟩).1.2 ?_, ?_⟩
  · exact ⟨⟨by decide, by decide, by decide, by decide⟩, by decide⟩
  · -- The end of this edge is the first vertex, which has a list.
    intro hout
    exact absurd ((hfault ⟨1, 0, 3⟩).1.1 hout).2 (by decide)

/-! ## Loading what was saved -/

section Saved

omit [TriviallyCopyable VT] [TriviallyCopyable ET] [Inhabited VT]

/-- The edge loop returns if there is a list for the end of every edge. -/
theorem foldlM_addEdge_inside (edges : List (TEdge ET)) (this : TBackwardGraph VT ET)
    (hinside : ∀ edge ∈ edges, edge.endId.toInt < this.parentEdges.length) :
    ∃ this', edges.foldlM (fun this value => do
        let (_, this) ← graphClass.addEdge this value
        return this) this = .ok this' ∧
      this'.parentEdges.length = this.parentEdges.length := by
  induction edges generalizing this with
  | nil => exact ⟨this, rfl, rfl⟩
  | cons edge rest ih =>
      cases hadd : graphClass.addEdge this edge with
      | error fault =>
          -- The only fault is a missing list, and there is one for the end of this edge.
          have hfault : fault = .outOfBounds := addEdge_fault hadd
          rw [hfault] at hadd
          have hout := ((addEdge_fault_iff edge).1 hadd).2
          exact absurd (hinside edge List.mem_cons_self) (Int.not_lt.2 hout)
      | ok r =>
          have hlen : r.2.parentEdges.length = this.parentEdges.length := addEdge_length hadd
          rw [List.foldlM_cons, hadd, Checked.ok_bind, ← hlen]
          apply ih
          intro later hlater
          rw [hlen]
          exact hinside later (List.mem_cons_of_mem edge hlater)

end Saved

variable [Inhabited ET]

/-- Loading a saved graph of `n` vertices returns: the `2 * n` vertices have lists for the first `n`
of them only, these are the transpose of the edges that were saved, and `AddEdge` then leaves the
table for every acceptable edge to one of the vertices that hold the saved values. -/
theorem deseriallize_saved {source : TDirectedGraph VT ET} (hsource : source.WellFormed)
    (hedges : source.edgeMap.size < 2 ^ 31) (hvertices : 2 * source.vertexArray.length < 2 ^ 31)
    (this : TBackwardGraph VT ET) (rest : Bytes) (inSize : UInt64) :
    ∃ this' : TBackwardGraph VT ET,
      TDirectedGraph.deseriallize graphClass this (source.written ++ rest) inSize = .ok this' ∧
      this'.toTDirectedGraph =
        { bDirectSelf := source.bDirectSelf
          vertexArray := source.reloadedVertices
          edgeMap := source.edgeMap } ∧
      this'.parentEdges.length = source.vertexArray.length ∧
      (∀ (v : Nat) (eal : EdgeAdjustList), this'.parentEdges[v]? = some eal →
        ∀ u : Int32, u ∈ eal.adjustVertexes ↔ HasEdge source u v) ∧
      ∀ edge : TEdge ET, this'.addEdge edge = .error .outOfBounds ↔
        this'.Accepts edge ∧ source.vertexArray.length ≤ edge.endId.toInt := by
  have hfit : source.CountsFit := ⟨by omega, hedges⟩
  have hcount : source.vertexCount.toInt = source.vertexArray.length :=
    Int32.toInt_ofNat_of_lt hfit.vertices
  have hnonneg : 0 ≤ source.vertexCount.toInt := by
    rw [hcount]
    exact Int.natCast_nonneg _
  rcases resize_ok ([] : List (TVertex VT)) hnonneg default with ⟨vertexArray, hresize, -⟩
  rcases foldlM_addVertex_ok source.vertexSection
    (TDirectedGraph.presized graphClass this source.bDirectSelf vertexArray) with
    ⟨loaded, hloaded, hlists⟩
  have hlen : loaded.parentEdges.length = source.vertexArray.length := by
    calc
      loaded.parentEdges.length = 0 + source.vertexSection.length := hlists
      _ = source.vertexArray.length := by rw [Nat.zero_add, hfit.vertexSection_eq]
  -- Every saved edge ends at a vertex of the saved graph.
  have hinside : ∀ edge ∈ source.edgeSection, edge.endId.toInt <
      ({ loaded with edgeMap := ∅ } : TBackwardGraph VT ET).parentEdges.length := by
    intro edge hedge
    rw [hfit.edgeSection_eq] at hedge
    rcases List.mem_map.1 hedge with ⟨entry, hentry, rfl⟩
    have hget := Std.ExtTreeMap.mem_toList_iff_getElem?_eq_some.1 hentry
    have hend := (hsource.ends entry.1 entry.2 hget).2.2
    rw [← hlen] at hend
    exact hend
  rcases foldlM_addEdge_inside source.edgeSection { loaded with edgeMap := ∅ } hinside with
    ⟨this', hreturns, hparents⟩
  have hload : TDirectedGraph.deseriallize graphClass this (source.written ++ rest) inSize =
      .ok this' := by
    rw [TDirectedGraph.written, TDirectedGraph.deseriallize_sections, hresize, Checked.ok_bind,
      hloaded, Checked.ok_bind]
    exact hreturns
  have hbase : this'.toTDirectedGraph =
      { bDirectSelf := source.bDirectSelf
        vertexArray := source.reloadedVertices
        edgeMap := source.edgeMap } := by
    -- The base class loads the same bytes, and what it makes of them is known.
    have hgraph := TDirectedGraph.base_deseriallize hload ({} : TDirectedGraph VT ET)
    rw [TDirectedGraph.deseriallize_written hsource.sound hedges hvertices, hsource.filter_eq]
      at hgraph
    exact (Except.ok.inj hgraph).symm
  have hlength : this'.parentEdges.length = source.vertexArray.length := hparents.trans hlen
  refine ⟨this', hload, hbase, hlength, ?_, ?_⟩
  · intro v eal heal u
    have hmirrored := (deseriallize_mirrored hload).mem_iff v eal heal u
    rw [hbase] at hmirrored
    exact hmirrored
  · intro edge
    rw [addEdge_fault_iff, hlength]

/-- A saved graph of two vertices, and an edge to a vertex that holds a saved value. -/
theorem deseriallize_saved_twoVertices :
    ∃ this : TBackwardGraph UInt8 UInt8,
      TDirectedGraph.deseriallize graphClass {} (TDirectedGraph.twoVertices.written ++ []) 36 =
        .ok this ∧
      this.addEdge ⟨0, 3, 1⟩ = .error .outOfBounds := by
  rcases deseriallize_saved TDirectedGraph.twoVertices_wellFormed (by decide) (by decide)
    ({} : TBackwardGraph UInt8 UInt8) [] 36 with ⟨this, hload, hbase, -, -, hfault⟩
  refine ⟨this, hload, (hfault ⟨0, 3, 1⟩).2 ⟨?_, by decide⟩⟩
  rw [hbase]
  exact ⟨by decide, by decide, by decide, by decide⟩

end TBackwardGraph

end Septem
