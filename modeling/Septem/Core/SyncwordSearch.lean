import Septem.Library.TriviallyCopyable
import Septem.Library.Occurrence

/-!
# SyncwordSearch — `BufferBufferSyncword` of `Core/Algorithm/SeptemBuffer.cpp`

The linear scan that finds the head of a frame.  It compares the 32-bit word at every index below
`BufferSize - 4` with the syncword, so it never looks at the last position a word would fit in.

`SyncwordAt w data i` is what the scan is meant to find; `bufferBufferSyncword_found` and
`bufferBufferSyncword_missing` say that it does, on every buffer an `int32` size can describe.
-/

namespace Septem

open Cxx

/-! ## The scan -/

/-- The `while (index < maxdex)` loop; the counter is the number of rounds left. -/
def syncwordLoop (buffer : Bytes) (syncword : Int32) : Nat → Int → Checked Int
  | 0, _ => pure (-1)
  | rounds + 1, index => do
      let ptr ← offset buffer index
      let word ← memcpyFrom ptr (sizeof Int32)
      -- The source compares `*(int32*)(Buffer + index)` with the syncword.
      if (ofBytes word.1 : Int32) = syncword then
        pure index
      else do
        let index ← int32 (index + 1)
        syncwordLoop buffer syncword rounds index

/-- `BufferBufferSyncword(Buffer, BufferSize, Syncword)`. -/
def bufferBufferSyncword (buffer : Bytes) (bufferSize : Int) (syncword : Int32) :
    Checked Int := do
  let maxdex ← int32 (bufferSize - 4)
  syncwordLoop buffer syncword maxdex.toNat 0

/-! ## What it finds -/

/-- The first place of the syncword's bytes, at an index the scan looks at. -/
def SyncwordAt (syncword : Int32) (buffer : Bytes) (i : Nat) : Prop :=
  i + 4 < buffer.length ∧ FirstOccurrence (toBytes syncword) buffer i

instance (syncword : Int32) (buffer : Bytes) (i : Nat) :
    Decidable (SyncwordAt syncword buffer i) :=
  inferInstanceAs (Decidable (_ ∧ _))

theorem SyncwordAt.unique {syncword : Int32} {buffer : Bytes} {i j : Nat}
    (hi : SyncwordAt syncword buffer i) (hj : SyncwordAt syncword buffer j) : i = j :=
  hi.2.unique hj.2

variable {buffer : Bytes} {syncword : Int32}

/-- Comparing the word that stands at `i` is comparing the bytes that stand there. -/
theorem ofBytes_eq_iff_occursAt {i : Nat} (h : i + 4 ≤ buffer.length) :
    (ofBytes (slice buffer i 4) : Int32) = syncword ↔ OccursAt (toBytes syncword) buffer i := by
  have hlen : (slice buffer i 4).length = sizeof Int32 := length_slice h
  constructor
  · intro hw
    have hback : toBytes (ofBytes (slice buffer i 4) : Int32) = slice buffer i 4 :=
      Unpadded.toBytes_ofBytes _ hlen
    rw [hw] at hback
    exact hback.symm
  · intro hocc
    have hslice : slice buffer i 4 = toBytes syncword := hocc
    rw [hslice, ofBytes_toBytes]

/-- One round of the scan. -/
theorem syncwordLoop_succ {rounds i : Nat} (hfit : i + 4 ≤ buffer.length)
    (hsize : buffer.length < 2 ^ 31) :
    syncwordLoop buffer syncword (rounds + 1) i =
      if OccursAt (toBytes syncword) buffer i then .ok (i : Int)
      else syncwordLoop buffer syncword rounds ((i + 1 : Nat) : Int) := by
  have hoff : offset buffer (i : Int) = .ok (buffer.drop i) := offset_ok (by omega)
  have hread : sizeof Int32 ≤ (buffer.drop i).length := by
    change 4 ≤ (buffer.drop i).length
    simp only [List.length_drop]
    omega
  have hnext : int32 ((i : Int) + 1) = .ok ((i + 1 : Nat) : Int) :=
    int32_add (show i + 1 < 2 ^ 31 by omega)
  -- Words are compared, occurrences are about bytes.
  have hiff : (ofBytes (slice buffer i 4) : Int32) = syncword ↔
      OccursAt (toBytes syncword) buffer i := ofBytes_eq_iff_occursAt hfit
  simp only [syncwordLoop, hoff, memcpyFrom_ok hread, Checked.ok_bind, hnext]
  change (if (ofBytes (slice buffer i 4) : Int32) = syncword then _ else _) = _
  simp only [hiff, Checked.pure_eq_ok]

theorem syncwordLoop_missing (hsize : buffer.length < 2 ^ 31) :
    ∀ {rounds i : Nat}, i + rounds + 4 ≤ buffer.length →
      (∀ j, i ≤ j → j < i + rounds → ¬ OccursAt (toBytes syncword) buffer j) →
      syncwordLoop buffer syncword rounds i = .ok (-1)
  | 0, _, _, _ => rfl
  | rounds + 1, i, hfit, hnone => by
      have hhere : ¬ OccursAt (toBytes syncword) buffer i := hnone i le_rfl (by omega)
      rw [syncwordLoop_succ (by omega) hsize, if_neg hhere]
      refine syncwordLoop_missing hsize (by omega) ?_
      intro j hij hj
      exact hnone j (by omega) (by omega)

theorem syncwordLoop_found (hsize : buffer.length < 2 ^ 31) {k : Nat}
    (hk : OccursAt (toBytes syncword) buffer k) :
    ∀ {rounds i : Nat}, i + rounds + 4 ≤ buffer.length → i ≤ k → k < i + rounds →
      (∀ j, i ≤ j → j < k → ¬ OccursAt (toBytes syncword) buffer j) →
      syncwordLoop buffer syncword rounds i = .ok (k : Int)
  | 0, i, _, hik, hlt, _ => by omega
  | rounds + 1, i, hfit, hik, hlt, hnone => by
      rw [syncwordLoop_succ (by omega) hsize]
      rcases Nat.eq_or_lt_of_le hik with rfl | hlt'
      · rw [if_pos hk]
      · rw [if_neg (hnone i le_rfl hlt')]
        refine syncwordLoop_found hsize hk (by omega) (by omega) (by omega) ?_
        intro j hij hj
        exact hnone j (by omega) hj

theorem bufferBufferSyncword_found {i : Nat} (hsize : buffer.length < 2 ^ 31)
    (h : SyncwordAt syncword buffer i) :
    bufferBufferSyncword buffer buffer.length syncword = .ok (i : Int) := by
  have hmax : int32 ((buffer.length : Int) - 4) = .ok ((buffer.length : Int) - 4) :=
    int32_ok (by omega) (by omega)
  have hlt : i + 4 < buffer.length := h.1
  have hloop : syncwordLoop buffer syncword (buffer.length - 4) (0 : Nat) = .ok (i : Int) :=
    syncwordLoop_found hsize h.2.1 (by omega) (by omega) (by omega) (fun j _ hj => h.2.2 j hj)
  have hrounds : ((buffer.length : Int) - 4).toNat = buffer.length - 4 := by omega
  simpa [bufferBufferSyncword, hmax, hrounds] using hloop

theorem bufferBufferSyncword_missing (hsize : buffer.length < 2 ^ 31)
    (h : ∀ i, ¬ SyncwordAt syncword buffer i) :
    bufferBufferSyncword buffer buffer.length syncword = .ok (-1) := by
  have hmax : int32 ((buffer.length : Int) - 4) = .ok ((buffer.length : Int) - 4) :=
    int32_ok (by omega) (by omega)
  have hrounds : ((buffer.length : Int) - 4).toNat = buffer.length - 4 := by omega
  by_cases hshort : buffer.length ≤ 4
  · -- No round is run.
    have hzero : buffer.length - 4 = 0 := by omega
    simp [bufferBufferSyncword, hmax, hrounds, hzero, syncwordLoop]
  · have hloop : syncwordLoop buffer syncword (buffer.length - 4) (0 : Nat) = .ok (-1) := by
      refine syncwordLoop_missing hsize (by omega) ?_
      intro j _ hj hocc
      -- An occurrence the scan looks at has a first one in front of it, which it looks at too.
      rcases hocc.exists_first with ⟨i, hij, hfirst⟩
      exact h i ⟨by omega, hfirst⟩
    simpa [bufferBufferSyncword, hmax, hrounds] using hloop

end Septem
