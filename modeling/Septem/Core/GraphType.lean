import Septem.Library.TriviallyCopyable

/-!
# GraphType — vertices, edges and edge keys of `Core/Templates/GraphType.hpp`

The packed records of the graph templates, and the 64-bit key under which an edge is stored.
The key is computed from 32-bit ids that are sign-extended to 64 bits first, so the id of an end
that is negative spoils the upper half of the key; `edgeKey_inj` says that this never produces the
key of a stored edge.
-/

namespace Septem

open Cxx

/-! ## Records -/

structure TVertex (VT : Type) where
  index : Int32
  value : VT
  deriving DecidableEq, Repr

/-- An edge `startId O -> O endId` with its weight. -/
structure TEdge (ET : Type) where
  startId : Int32
  endId : Int32
  weight : ET
  deriving DecidableEq, Repr

/-- Value-initialisation, as `std::vector::resize` and `std::map::operator[]` do it. -/
instance {VT : Type} [Inhabited VT] : Inhabited (TVertex VT) :=
  ⟨{ index := 0, value := default }⟩

instance {ET : Type} [Inhabited ET] : Inhabited (TEdge ET) :=
  ⟨{ startId := 0, endId := 0, weight := default }⟩

instance {VT : Type} [TriviallyCopyable VT] : TriviallyCopyable (TVertex VT) :=
  TriviallyCopyable.ofEquiv (fun vertex : TVertex VT => (vertex.index, vertex.value))
    (fun members => ⟨members.1, members.2⟩) (fun _ => rfl)

instance {ET : Type} [TriviallyCopyable ET] : TriviallyCopyable (TEdge ET) :=
  TriviallyCopyable.ofEquiv (fun edge : TEdge ET => (edge.startId, edge.endId, edge.weight))
    (fun members => ⟨members.1, members.2.1, members.2.2⟩) (fun _ => rfl)

/-- An edge list of one vertex. -/
structure EdgeAdjustList where
  index : Int32
  adjustVertexes : Std.ExtTreeSet Int32

/-- `EdgeAdjustList(InIndex)`; the constructor does not use its parameter. -/
def EdgeAdjustList.new (_inIndex : Int32) : EdgeAdjustList :=
  { index := 0, adjustVertexes := ∅ }

/-! ## Keys -/

/-- `TDirectedGraph::HashEdgeKey`. -/
def hashEdgeKey (inStartId inEndId : UInt64) : UInt64 :=
  (inStartId <<< 32) ||| inEndId

/-- The conversion of an `int32` argument to `uint64`. -/
def toUInt64 (id : Int32) : UInt64 :=
  id.toInt64.toUInt64

/-- The key of the edge between two ids. -/
def edgeKey (startId endId : Int32) : UInt64 :=
  hashEdgeKey (toUInt64 startId) (toUInt64 endId)

/-- Sign extension is the residue modulo `2 ^ 64`. -/
theorem toNat_toUInt64 (id : Int32) : ((toUInt64 id).toNat : Int) = id.toInt % 2 ^ 64 := by
  have hextend : id.toInt64.toInt = id.toInt := Int32.toInt_toInt64 id
  calc
    ((toUInt64 id).toNat : Int)
        = (id.toInt64.toBitVec.toNat : Int) % 2 ^ 64 := by
            have hlt := id.toInt64.toBitVec.isLt
            exact (Int.emod_eq_of_lt (Int.natCast_nonneg _) (by exact_mod_cast hlt)).symm
    _ = id.toInt64.toBitVec.toInt % 2 ^ 64 := by
            rw [BitVec.toInt_eq_toNat_bmod]
            exact (Int.bmod_emod ..).symm
    _ = id.toInt % 2 ^ 64 := by rw [Int64.toInt_toBitVec, hextend]

theorem toUInt64_ofNat {n : Nat} (h : n < 2 ^ 31) : toUInt64 (Int32.ofNat n) = UInt64.ofNat n := by
  apply UInt64.toNat_inj.1
  have hextend := toNat_toUInt64 (Int32.ofNat n)
  rw [Int32.toInt_ofNat_of_lt h] at hextend
  rw [UInt64.toNat_ofNat']
  omega

theorem toNat_hashEdgeKey (a b : UInt64) :
    (hashEdgeKey a b).toNat = (2 ^ 32 * (a.toNat % 2 ^ 32)) ||| b.toNat := by
  have hshift : (a <<< 32).toNat = 2 ^ 32 * (a.toNat % 2 ^ 32) := by
    rw [UInt64.toNat_shiftLeft, Nat.shiftLeft_eq]
    have hcount : (32 : UInt64).toNat % 64 = 32 := rfl
    rw [hcount]
    omega
  rw [hashEdgeKey, UInt64.toNat_or, hshift]

/-- With a non-negative end the two halves of the key are the two ids. -/
theorem toNat_edgeKey {startId endId : Int32} (hend : 0 ≤ endId.toInt) :
    (edgeKey startId endId).toNat =
      2 ^ 32 * ((toUInt64 startId).toNat % 2 ^ 32) + endId.toInt.toNat := by
  have hlt := endId.toInt_lt
  have hend64 : (toUInt64 endId).toNat = endId.toInt.toNat := by
    -- A non-negative id is its own sign extension.
    have := toNat_toUInt64 endId
    omega
  rw [edgeKey, toNat_hashEdgeKey, hend64]
  exact (Nat.two_pow_add_eq_or_of_lt (by omega) _).symm

/-- With a negative end the upper half of the key is all ones. -/
theorem toNat_edgeKey_of_neg {startId endId : Int32} (hend : endId.toInt < 0) :
    2 ^ 64 - 2 ^ 31 ≤ (edgeKey startId endId).toNat := by
  have hge := endId.le_toInt
  have hend64 := toNat_toUInt64 endId
  have hor : (toUInt64 endId).toNat ≤ (edgeKey startId endId).toNat := by
    -- The shifted start id can only add bits.
    rw [edgeKey, toNat_hashEdgeKey]
    exact Nat.right_le_or
  omega

/-- Two non-negative ids make up their key as two 32-bit digits. -/
theorem toNat_edgeKey_of_nonneg {startId endId : Int32} (hstart : 0 ≤ startId.toInt)
    (hend : 0 ≤ endId.toInt) :
    (edgeKey startId endId).toNat = 2 ^ 32 * startId.toInt.toNat + endId.toInt.toNat := by
  have hlt := startId.toInt_lt
  have hstart64 := toNat_toUInt64 startId
  rw [toNat_edgeKey hend]
  omega

/-- A query for any ids, negative ones included, finds the key of a stored edge only when it asks
for that edge. -/
theorem edgeKey_inj {s t startId endId : Int32} (hstart : 0 ≤ startId.toInt)
    (hend : 0 ≤ endId.toInt) :
    edgeKey s t = edgeKey startId endId ↔ s = startId ∧ t = endId := by
  constructor
  · intro h
    have hkey : (edgeKey s t).toNat = (edgeKey startId endId).toNat := congrArg UInt64.toNat h
    rw [toNat_edgeKey_of_nonneg hstart hend] at hkey
    have hslt := startId.toInt_lt
    have htlt := endId.toInt_lt
    by_cases ht : 0 ≤ t.toInt
    · rw [toNat_edgeKey ht] at hkey
      -- Equal keys with two 32-bit digits each have equal digits; `s` may still be negative.
      have hs64 := toNat_toUInt64 s
      have hs := s.le_toInt
      have hs' := s.toInt_lt
      have ht' := t.toInt_lt
      exact ⟨Int32.toInt_inj.1 (by omega), Int32.toInt_inj.1 (by omega)⟩
    · -- The key of a stored edge is less than `2 ^ 63`.
      have hbig : 2 ^ 64 - 2 ^ 31 ≤ (edgeKey s t).toNat := toNat_edgeKey_of_neg (Int.not_le.1 ht)
      omega
  · rintro ⟨rfl, rfl⟩
    rfl

/-- Keys are ordered like the pairs of ids. -/
theorem edgeKey_lt_iff {s t startId endId : Int32} (hs : 0 ≤ s.toInt) (ht : 0 ≤ t.toInt)
    (hstart : 0 ≤ startId.toInt) (hend : 0 ≤ endId.toInt) :
    edgeKey s t < edgeKey startId endId ↔ s < startId ∨ (s = startId ∧ t < endId) := by
  have htlt := t.toInt_lt
  have hendlt := endId.toInt_lt
  rw [UInt64.lt_iff_toNat_lt, toNat_edgeKey_of_nonneg hs ht, toNat_edgeKey_of_nonneg hstart hend,
    Int32.lt_iff_toInt_lt, Int32.lt_iff_toInt_lt, ← Int32.toInt_inj]
  omega

end Septem
