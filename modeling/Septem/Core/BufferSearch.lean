import Septem.Library.Border
import Septem.Library.WhileLoop

/-!
# BufferSearch — `BufferFailArray` and `BufferBuffer` of `Core/Algorithm/SeptemBuffer.h`

The search for a pattern `N` in a text `M` with an optimised failure table.  Lengths are `int32`,
the elements of the buffers are of any type with `==`.  Both functions loop until their condition
fails; here they take a bound on the number of rounds and return `none` if it was too small.

* `FailInv` is the invariant of the loop that fills the table, `bufferFailArray_table` its result:
  every entry is a `StrongFail` of the pattern, which `bufferFailArray_fallbacks` spells out;
* `SearchInv` is the invariant of the search, `bufferBuffer_search` its result: the first
  occurrence, or `-1` if there is none.
-/

namespace Septem

open Cxx

variable {α : Type} [DecidableEq α]

/-! ## The functions -/

/-- `-1 == j || text[i] == pattern[j]`, the test of both loops. -/
def restartOrEqual (text pattern : List α) (i j : Int) : Checked Bool :=
  if -1 = j then
    pure true
  else do
    let a ← elementAt text i
    let b ← elementAt pattern j
    return decide (a = b)

/-- The variables of the loop of `BufferFailArray`. -/
structure FailLoop where
  index : Int := 0
  failIndex : Int := -1
  fail : List Int

namespace FailLoop

/-- `index + 1 < length`. -/
def cond (length : Int) (s : FailLoop) : Checked Bool := do
  let next ← int32 (s.index + 1)
  return decide (next < length)

def body (buffer : List α) (s : FailLoop) : Checked FailLoop := do
  if ← restartOrEqual buffer buffer s.index s.failIndex then do
    let index ← int32 (s.index + 1)
    let failIndex ← int32 (s.failIndex + 1)
    let a ← elementAt buffer index
    let b ← elementAt buffer failIndex
    if a = b then do
      -- Falling back to `failIndex` would fail again, so its own entry is taken.
      let entry ← elementAt s.fail failIndex
      let fail ← assignAt s.fail index entry
      return { index, failIndex, fail }
    else do
      let fail ← assignAt s.fail index failIndex
      return { index, failIndex, fail }
  else do
    let failIndex ← elementAt s.fail s.failIndex
    return { s with failIndex }

end FailLoop

/-- `BufferFailArray(buffer, fail, length)`: the contents of `fail` afterwards. -/
def bufferFailArray (fuel : Nat) (buffer : List α) (fail : List Int) (length : Int) :
    Checked (Option (List Int)) :=
  if length > 0 then do
    let fail ← assignAt fail 0 (-1)
    match ← whileLoop (FailLoop.cond length) (FailLoop.body buffer) fuel { fail := fail } with
    | none => return none
    | some s => return some s.fail
  else
    .error .assertion

/-- The variables of the loop of `BufferBuffer`. -/
structure SearchLoop where
  i : Int := 0
  j : Int := 0

namespace SearchLoop

/-- `i < MLength && j < NLength`. -/
def cond (mLength nLength : Int) (s : SearchLoop) : Checked Bool :=
  pure (decide (s.i < mLength) && decide (s.j < nLength))

def body (mBuffer nBuffer : List α) (fail : List Int) (s : SearchLoop) : Checked SearchLoop := do
  if ← restartOrEqual mBuffer nBuffer s.i s.j then do
    let i ← int32 (s.i + 1)
    let j ← int32 (s.j + 1)
    return { i, j }
  else do
    let j ← elementAt fail s.j
    return { s with j }

end SearchLoop

/-- `BufferBuffer(MBuffer, MLength, NBuffer, NLength)`. -/
def bufferBuffer (fuel : Nat) (mBuffer : List α) (mLength : Int) (nBuffer : List α)
    (nLength : Int) : Checked (Option Int) := do
  let fail ← resize [] nLength 0
  if mLength ≤ 0 ∨ nLength ≤ 0 then
    return some (-1)
  else do
    match ← bufferFailArray fuel nBuffer fail nLength with
    | none => return none
    | some fail =>
        match ← whileLoop (SearchLoop.cond mLength nLength)
            (SearchLoop.body mBuffer nBuffer fail) fuel {} with
        | none => return none
        | some s =>
            if nLength = s.j then do
              let first ← int32 (s.i - nLength)
              return some first
            else
              return some (-1)

example : bufferFailArray 20 [1, 2, 1, 2, 1, 3] (List.replicate 6 0) 6 =
    .ok (some [-1, 0, -1, 0, -1, 3]) := by
  decide

/-! ## The test -/

section Test

variable {text pattern : List α} {i j : Nat}

theorem restartOrEqual_restart (text pattern : List α) (i : Int) :
    restartOrEqual text pattern i (-1) = .ok true := rfl

theorem restartOrEqual_equal (hi : i < text.length) (hj : j < pattern.length) :
    restartOrEqual text pattern i j = .ok (decide (pattern[j]? = text[i]?)) := by
  have hne : ¬ (-1 : Int) = j := by omega
  have hget : elementAt text (i : Int) = .ok text[i] :=
    elementAt_eq_ok.2 (List.getElem?_eq_getElem hi)
  have hget' : elementAt pattern (j : Int) = .ok pattern[j] :=
    elementAt_eq_ok.2 (List.getElem?_eq_getElem hj)
  simp only [restartOrEqual, if_neg hne, hget, hget', Checked.ok_bind, Checked.pure_eq_ok,
    List.getElem?_eq_getElem hi, List.getElem?_eq_getElem hj, Option.some.injEq,
    eq_comm (a := text[i])]

/-- The test succeeds where there is nothing to compare or the elements agree, and fails at two
elements that differ. -/
theorem restartOrEqual_cases {j : Int} (hi : i < text.length) (hge : -1 ≤ j)
    (hj : j < pattern.length) :
    (restartOrEqual text pattern i j = .ok true ∧
        ∀ k : Nat, j = k → pattern[k]? = text[i]?) ∨
      ∃ k : Nat, j = k ∧ restartOrEqual text pattern i j = .ok false ∧
        pattern[k]? ≠ text[i]? := by
  by_cases hneg : j = -1
  · refine Or.inl ⟨?_, fun k hk => by omega⟩
    rw [hneg]
    exact restartOrEqual_restart text pattern i
  · obtain ⟨k, rfl⟩ : ∃ k : Nat, j = k := ⟨j.toNat, by omega⟩
    have htest := restartOrEqual_equal hi (Int.ofNat_lt.1 hj)
    by_cases heq : pattern[k]? = text[i]?
    · rw [decide_eq_true heq] at htest
      refine Or.inl ⟨htest, ?_⟩
      intro l hl
      obtain rfl : k = l := Int.ofNat.inj hl
      exact heq
    · rw [decide_eq_false heq] at htest
      exact Or.inr ⟨k, rfl, htest, heq⟩

end Test

/-! ## Filling the table -/

/-- The loop of `BufferFailArray` stands at `i`: the table is filled up to there, `failIndex` is a
border of what was read, and no border that goes on like the pattern is longer. -/
structure FailInv (pattern : List α) (i : Nat) (s : FailLoop) : Prop where
  index : s.index = i
  lt : i < pattern.length
  length_fail : s.fail.length = pattern.length
  ge : -1 ≤ s.failIndex
  border : ∀ k : Nat, s.failIndex = k → Border pattern i k
  candidates : ∀ k : Nat, Border pattern i k → pattern[k]? = pattern[i]? → (k : Int) ≤ s.failIndex
  table : ∀ t ≤ i, ∃ f, s.fail[t]? = some f ∧ StrongFail pattern t f

section Table

omit [DecidableEq α]

variable {pattern : List α} {i : Nat} {s : FailLoop}

/-- Where the border goes on like the pattern, or there is none, one more element is read and the
longest border there is one longer. -/
theorem FailInv.longest (h : FailInv pattern i s) {b : Nat} (hb : s.failIndex + 1 = b)
    (hgo : ∀ k : Nat, s.failIndex = k → pattern[k]? = pattern[i]?) :
    LongestBorder pattern (i + 1) b := by
  refine ⟨?_, ?_⟩
  · cases b with
    | zero => exact ⟨PartialMatch.zero _ _ _, Nat.succ_pos i⟩
    | succ k =>
        -- A border of length `k + 1` is one of length `k` that goes on like the pattern.
        have hk : s.failIndex = k := by omega
        exact (border_succ_iff h.lt).2 ⟨h.border k hk, hgo k hk⟩
  · intro l hl
    cases l with
    | zero => exact Nat.zero_le b
    | succ m =>
        rcases (border_succ_iff h.lt).1 hl with ⟨hborder, heq⟩
        have := h.candidates m hborder heq
        omega

theorem failInv_start {fail : List Int} (hpos : 0 < pattern.length)
    (hlen : fail.length = pattern.length) :
    FailInv pattern 0 { fail := fail.set 0 (-1) } := by
  have hfirst : 0 < fail.length := by omega
  refine ⟨rfl, hpos, by rw [List.length_set, hlen], Int.le_refl _, ?_, ?_, ?_⟩
  · intro k hk
    simp only [] at hk
    omega
  · intro k hk _
    exact absurd hk.lt (Nat.not_lt_zero k)
  · intro t ht
    obtain rfl : t = 0 := Nat.le_zero.1 ht
    exact ⟨-1, List.getElem?_set_self hfirst, strongFail_zero pattern⟩

/-- A new entry behind a filled table. -/
theorem table_set {fail : List Int} (hlen : i + 1 < fail.length)
    (h : ∀ t ≤ i, ∃ f, fail[t]? = some f ∧ StrongFail pattern t f) {entry : Int}
    (hentry : StrongFail pattern (i + 1) entry) :
    ∀ t ≤ i + 1, ∃ f, (fail.set (i + 1) entry)[t]? = some f ∧ StrongFail pattern t f := by
  intro t ht
  by_cases hlast : t = i + 1
  · rw [hlast]
    exact ⟨entry, List.getElem?_set_self hlen, hentry⟩
  · rcases h t (by omega) with ⟨f, hget, hf⟩
    exact ⟨f, by rw [List.getElem?_set_ne (Ne.symm hlast), hget], hf⟩

end Table

section FailBody

variable {pattern : List α} {i : Nat} {s : FailLoop}

/-- What is left to read counts twice, so that a step forward outweighs the longer border. -/
def FailLoop.measure (length : Nat) (s : FailLoop) : Nat :=
  (2 * (length - s.index) + s.failIndex + 1).toNat

omit [DecidableEq α] in
theorem FailInv.failIndex_lt (h : FailInv pattern i s) : s.failIndex < i := by
  by_cases hneg : s.failIndex < 0
  · omega
  · have hlt := (h.border s.failIndex.toNat (by omega)).lt
    omega

omit [DecidableEq α] in
/-- `index + 1` does not overflow. -/
theorem FailInv.cond_eq (hsize : pattern.length < 2 ^ 31) (h : FailInv pattern i s) :
    s.cond pattern.length = .ok (decide (i + 1 < pattern.length)) := by
  have hlt := h.lt
  have hindex := h.index
  rw [FailLoop.cond, int32_ok (by omega) (by omega), Checked.ok_bind, Checked.pure_eq_ok, hindex]
  norm_cast

/-- The test succeeded: the next entry is made from the longest border. -/
theorem failBody_advance (hsize : pattern.length < 2 ^ 31) (h : FailInv pattern i s)
    (hnext : i + 1 < pattern.length)
    (htest : restartOrEqual pattern pattern s.index s.failIndex = .ok true)
    (hgo : ∀ k : Nat, s.failIndex = k → pattern[k]? = pattern[i]?) :
    ∃ s', FailLoop.body pattern s = .ok s' ∧ FailInv pattern (i + 1) s' ∧
      s'.failIndex = s.failIndex + 1 := by
  have hge := h.ge
  have hlt := h.failIndex_lt
  obtain ⟨b, hb⟩ : ∃ b : Nat, s.failIndex + 1 = b := ⟨(s.failIndex + 1).toNat, by omega⟩
  have hlongest := h.longest hb hgo
  have hbi : b ≤ i := Nat.lt_succ_iff.1 hlongest.lt
  have hindex : int32 (s.index + 1) = .ok ((i + 1 : Nat) : Int) := by
    rw [h.index]
    exact int32_add (show i + 1 < 2 ^ 31 by omega)
  have hfailIndex : int32 (s.failIndex + 1) = .ok (b : Int) := by
    rw [hb, int32_ok (by omega) (by omega)]
  have ha : elementAt pattern ((i + 1 : Nat) : Int) = .ok pattern[i + 1] :=
    elementAt_eq_ok.2 (List.getElem?_eq_getElem hnext)
  have hbLt : b < pattern.length := by omega
  have hb' : elementAt pattern (b : Int) = .ok pattern[b] :=
    elementAt_eq_ok.2 (List.getElem?_eq_getElem hbLt)
  have hroom : i + 1 < s.fail.length := by rw [h.length_fail]; exact hnext
  have hsame : pattern[i + 1] = pattern[b] ↔ pattern[b]? = pattern[i + 1]? := by
    rw [List.getElem?_eq_getElem hbLt, List.getElem?_eq_getElem hnext, Option.some.injEq]
    exact eq_comm
  -- Whatever the new entry is, it is the right one, and the border is the new `failIndex`.
  have hinv (entry : Int) (hentry : StrongFail pattern (i + 1) entry) :
      FailInv pattern (i + 1)
        { index := (i + 1 : Nat), failIndex := b, fail := s.fail.set (i + 1) entry } := by
    refine ⟨rfl, hnext, ?_, by simp only []; omega, ?_, ?_, table_set hroom h.table hentry⟩
    · rw [List.length_set, h.length_fail]
    · intro k hk
      obtain rfl : b = k := Int.ofNat.inj hk
      exact hlongest.toBorder
    · intro k hk _
      exact Int.ofNat_le.2 (hlongest.max k hk)
  by_cases heq : pattern[i + 1] = pattern[b]
  · -- Falling back to `b` would meet the same element again: the entry of `b` is copied.
    rcases h.table b hbi with ⟨f, hget, hf⟩
    have hentry : elementAt s.fail (b : Int) = .ok f := elementAt_eq_ok.2 hget
    refine ⟨_, ?_, hinv f (hlongest.strongFail_of_eq (hsame.1 heq) hf), by simp only []; omega⟩
    simp only [FailLoop.body, htest, hindex, hfailIndex, ha, hb', if_pos heq, hentry,
      assignAt_ok hroom, Checked.ok_bind, Checked.pure_eq_ok, if_true]
  · -- The elements differ: `b` is the entry itself.
    have hentry : StrongFail pattern (i + 1) b := hlongest.strongFail fun hne => heq (hsame.2 hne)
    refine ⟨_, ?_, hinv b hentry, by simp only []; omega⟩
    simp only [FailLoop.body, htest, hindex, hfailIndex, ha, hb', if_neg heq,
      assignAt_ok hroom, Checked.ok_bind, Checked.pure_eq_ok, if_true]

/-- The test failed: the next shorter border that can go on is the entry of this one. -/
theorem failBody_fallBack (h : FailInv pattern i s) {j : Nat} (hj : s.failIndex = j)
    (htest : restartOrEqual pattern pattern s.index s.failIndex = .ok false)
    (hne : pattern[j]? ≠ pattern[i]?) :
    ∃ s', FailLoop.body pattern s = .ok s' ∧ FailInv pattern i s' ∧ s'.index = s.index ∧
      s'.failIndex < s.failIndex := by
  have hborder := h.border j hj
  rcases h.table j (Nat.le_of_lt hborder.lt) with ⟨f, hget, hf⟩
  have hentry : elementAt s.fail s.failIndex = .ok f := by
    rw [hj]
    exact elementAt_eq_ok.2 hget
  refine ⟨{ s with failIndex := f }, ?_, ?_, rfl, ?_⟩
  · simp only [FailLoop.body, htest, Bool.false_eq_true, if_false, hentry, Checked.ok_bind,
      Checked.pure_eq_ok]
  · refine ⟨h.index, h.lt, h.length_fail, hf.ge, ?_, ?_, h.table⟩
    · -- A border of a border is a border.
      intro k hk
      exact hborder.trans (hf.border k hk).1
    · -- What can go on like the pattern is not passed over.
      intro k hk heq
      have hkj : (k : Int) ≤ j := hj ▸ h.candidates k hk heq
      exact hborder.toPartialMatch.le_fail hne hf hk.toPartialMatch heq (Int.ofNat_le.1 hkj)
  · have := hf.lt
    simp only []
    omega

theorem failBody_step (hsize : pattern.length < 2 ^ 31) (h : FailInv pattern i s)
    (hnext : i + 1 < pattern.length) :
    ∃ s', FailLoop.body pattern s = .ok s' ∧ (∃ i', FailInv pattern i' s') ∧
      s'.measure pattern.length < s.measure pattern.length := by
  have hge := h.ge
  have hindex := h.index
  have hlt := h.failIndex_lt
  have hlast := h.lt
  have hcases := restartOrEqual_cases h.lt hge (show s.failIndex < pattern.length by omega)
  rw [← hindex] at hcases
  rcases hcases with ⟨htest, hgo⟩ | ⟨j, hj, htest, hne⟩
  · -- One more element is read, with a border that is at most one longer.
    rcases failBody_advance hsize h hnext htest hgo with ⟨s', hs', hinv, hfail⟩
    refine ⟨s', hs', ⟨_, hinv⟩, ?_⟩
    have hindex' := hinv.index
    simp only [FailLoop.measure]
    omega
  · -- Only `failIndex` changes, and gets smaller.
    rcases failBody_fallBack h hj htest hne with ⟨s', hs', hinv, hindex', hfail⟩
    refine ⟨s', hs', ⟨i, hinv⟩, ?_⟩
    have hge' := hinv.ge
    simp only [FailLoop.measure]
    omega

end FailBody

/-- `fail` is the failure table of the pattern. -/
structure FailTable (pattern : List α) (fail : List Int) : Prop where
  length_fail : fail.length = pattern.length
  entry : ∀ t < pattern.length, ∃ f, fail[t]? = some f ∧ StrongFail pattern t f

/-- Whatever the array held before, `BufferFailArray` ends and leaves the failure table in it. -/
theorem bufferFailArray_table {pattern : List α} {fail : List Int} {fuel : Nat}
    (hpos : 0 < pattern.length) (hsize : pattern.length < 2 ^ 31)
    (hlen : fail.length = pattern.length) (hfuel : 2 * pattern.length < fuel) :
    ∃ fail', bufferFailArray fuel pattern fail pattern.length = .ok (some fail') ∧
      FailTable pattern fail' := by
  have hfirst : 0 < fail.length := by omega
  have hassign : assignAt fail 0 (-1) = .ok (fail.set 0 (-1)) := assignAt_ok hfirst (-1)
  have hstart := failInv_start hpos hlen
  have hcond (s : FailLoop) (hs : ∃ i, FailInv pattern i s) :
      ∃ go, s.cond pattern.length = .ok go := by
    rcases hs with ⟨i, hinv⟩
    exact ⟨_, hinv.cond_eq hsize⟩
  have hbody (s : FailLoop) (hs : ∃ i, FailInv pattern i s)
      (hgo : s.cond pattern.length = .ok true) :
      ∃ s', FailLoop.body pattern s = .ok s' ∧ (∃ i, FailInv pattern i s') ∧
        s'.measure pattern.length < s.measure pattern.length := by
    rcases hs with ⟨i, hinv⟩
    rw [hinv.cond_eq hsize] at hgo
    exact failBody_step hsize hinv (of_decide_eq_true (Except.ok.inj hgo))
  have hmeasure : FailLoop.measure pattern.length { fail := fail.set 0 (-1) } < fuel := by
    simp only [FailLoop.measure]
    omega
  rcases whileLoop_returns hcond hbody ⟨0, hstart⟩ hmeasure with ⟨s, hrun, ⟨i, hinv⟩, hend⟩
  refine ⟨s.fail, ?_, hinv.length_fail, ?_⟩
  · have hlength : (pattern.length : Int) > 0 := by omega
    simp only [bufferFailArray, if_pos hlength, hassign, Checked.ok_bind, hrun, Checked.pure_eq_ok]
  · -- The loop has ended at the last element, and the table is filled up to there.
    intro t ht
    rw [hinv.cond_eq hsize] at hend
    have hlast := of_decide_eq_false (Except.ok.inj hend)
    exact hinv.table t (by omega)

/-- `BufferFailArray` computes the strong failure function of the pattern: the entry at `i` is the
longest of the prefixes a match that broke off at `i` may go on with, and `-1` if there is none. -/
theorem bufferFailArray_fallbacks {pattern : List α} {fail : List Int} {fuel : Nat}
    (hpos : 0 < pattern.length) (hsize : pattern.length < 2 ^ 31)
    (hlen : fail.length = pattern.length) (hfuel : 2 * pattern.length < fuel) :
    ∃ fail', bufferFailArray fuel pattern fail pattern.length = .ok (some fail') ∧
      fail'.length = pattern.length ∧ fail'[0]? = some (-1) ∧
      ∀ i < pattern.length, ∃ f : Int, fail'[i]? = some f ∧ f < i ∧
        ((∃ k : Nat, f = k ∧ IsGreatest (fallbacks pattern i) k) ∨
          (f = -1 ∧ fallbacks pattern i = ∅)) := by
  rcases bufferFailArray_table hpos hsize hlen hfuel with ⟨fail', hrun, htable⟩
  refine ⟨fail', hrun, htable.length_fail, ?_, ?_⟩
  · -- The only number below `0` that an entry can be is `-1`.
    rcases htable.entry 0 hpos with ⟨f, hget, hf⟩
    have hge := hf.ge
    have hlt := hf.lt
    obtain rfl : f = -1 := by omega
    exact hget
  · intro i hi
    rcases htable.entry i hi with ⟨f, hget, hf⟩
    exact ⟨f, hget, hf.lt, (strongFail_iff (Nat.le_of_lt hi)).1 hf⟩

/-- A periodic pattern that breaks its period at the end, in an array that was not cleared. -/
theorem bufferFailArray_fallbacks_periodic :
    ∃ fail', bufferFailArray 20 [1, 2, 1, 2, 1, 3] [9, 9, 9, 9, 9, 9] 6 = .ok (some fail') ∧
      fail' = [-1, 0, -1, 0, -1, 3] ∧ IsGreatest (fallbacks [1, 2, 1, 2, 1, 3] 5) 3 := by
  have hpos : 0 < [1, 2, 1, 2, 1, 3].length := by decide
  have hsize : [1, 2, 1, 2, 1, 3].length < 2 ^ 31 := by decide
  have hlen : [9, 9, 9, 9, 9, (9 : Int)].length = [1, 2, 1, 2, 1, 3].length := rfl
  have hfail := bufferFailArray_fallbacks hpos hsize hlen (show _ < 20 by decide)
  rcases hfail with ⟨fail', hrun, -, -, hentry⟩
  have hfail' : fail' = [-1, 0, -1, 0, -1, 3] := by
    cases hrun
    rfl
  refine ⟨fail', hrun, hfail', ?_⟩
  rcases hentry 5 (by decide) with ⟨f, hget, -, hf⟩
  rw [hfail'] at hget
  obtain rfl : 3 = f := Option.some.inj hget
  rcases hf with ⟨k, hk, hgreatest⟩ | ⟨hneg, -⟩
  · obtain rfl : 3 = k := Int.ofNat.inj hk
    exact hgreatest
  · exact absurd hneg (by decide)

/-! ## Searching -/

/-- The search stands at `i` in the text: `j` elements of the pattern were read, and every
occurrence is still to be completed. -/
structure SearchInv (text pattern : List α) (i : Nat) (s : SearchLoop) : Prop where
  index : s.i = i
  le : i ≤ text.length
  ge : -1 ≤ s.j
  partialMatch : ∀ k : Nat, s.j = k → PartialMatch pattern text i k
  pending : ∀ p : Nat, OccursAt pattern text p → (i : Int) - s.j ≤ p

omit [DecidableEq α] in
theorem searchInv_start (text pattern : List α) : SearchInv text pattern 0 {} := by
  refine ⟨rfl, Nat.zero_le _, by decide, ?_, ?_⟩
  · intro k hk
    obtain rfl : k = 0 := by
      simp only [] at hk
      omega
    exact PartialMatch.zero _ _ _
  · intro p _
    simp only []
    omega

/-- The rest of the text counts twice, as for the table. -/
def SearchLoop.measure (length : Nat) (s : SearchLoop) : Nat :=
  (2 * (length - s.i) + s.j + 1).toNat

section SearchBody

variable {text pattern : List α} {fail : List Int} {i : Nat} {s : SearchLoop}

theorem searchBody_advance (htext : text.length < 2 ^ 31) (hpattern : pattern.length < 2 ^ 31)
    (h : SearchInv text pattern i s) (hi : i < text.length) (hj : s.j < pattern.length)
    (htest : restartOrEqual text pattern s.i s.j = .ok true)
    (hgo : ∀ k : Nat, s.j = k → pattern[k]? = text[i]?) :
    ∃ s', SearchLoop.body text pattern fail s = .ok s' ∧ SearchInv text pattern (i + 1) s' ∧
      s'.j = s.j + 1 := by
  have hge := h.ge
  have hnext : int32 (s.i + 1) = .ok ((i + 1 : Nat) : Int) := by
    rw [h.index]
    exact int32_add (show i + 1 < 2 ^ 31 by omega)
  have hnextJ : int32 (s.j + 1) = .ok (s.j + 1) := int32_ok (by omega) (by omega)
  refine ⟨{ i := (i + 1 : Nat), j := s.j + 1 }, ?_, ⟨rfl, hi, by simp only []; omega, ?_, ?_⟩, rfl⟩
  · simp only [SearchLoop.body, htest, hnext, hnextJ, Checked.ok_bind, Checked.pure_eq_ok, if_true]
  · intro k hk
    simp only [] at hk
    cases k with
    | zero => exact PartialMatch.zero _ _ _
    | succ k =>
        have hk' : s.j = k := by omega
        exact (partialMatch_succ_iff hi).2 ⟨h.partialMatch k hk', by omega, hgo k hk'⟩
  · -- The index and `j` move together, so what was pending stays pending.
    intro p hp
    have := h.pending p hp
    simp only []
    omega

/-- An occurrence that was begun goes on with the longest border that can go on. -/
theorem searchBody_fallBack (hfail : FailTable pattern fail) (h : SearchInv text pattern i s)
    {j : Nat} (hj : s.j = j) (hlt : j < pattern.length)
    (htest : restartOrEqual text pattern s.i s.j = .ok false) (hne : pattern[j]? ≠ text[i]?) :
    ∃ s', SearchLoop.body text pattern fail s = .ok s' ∧ SearchInv text pattern i s' ∧
      s'.i = s.i ∧ s'.j < s.j := by
  rcases hfail.entry j hlt with ⟨f, hget, hf⟩
  have hmatch := h.partialMatch j hj
  have hentry : elementAt fail s.j = .ok f := by
    rw [hj]
    exact elementAt_eq_ok.2 hget
  refine ⟨{ s with j := f }, ?_, ⟨h.index, h.le, hf.ge, ?_, ?_⟩, rfl, ?_⟩
  · simp only [SearchLoop.body, htest, Bool.false_eq_true, if_false, hentry, Checked.ok_bind,
      Checked.pure_eq_ok]
  · intro k hk
    exact hmatch.of_border (hf.border k hk).1
  · intro p hp
    have hpending := h.pending p hp
    have hge := hf.ge
    simp only []
    by_cases hbegun : p ≤ i
    · -- What was read of it is a partial match that can go on, so the entry keeps it.
      obtain ⟨k, rfl⟩ : ∃ k, i = p + k := ⟨i - p, by omega⟩
      have hkj : k ≤ j := by omega
      have hcontinues : pattern[k]? = text[p + k]? := by
        have hpat : pattern ≠ [] := List.ne_nil_of_length_pos (by omega)
        exact (((occursAt_iff hpat).1 hp).2 k (by omega)).symm
      have := hmatch.le_fail hne hf (hp.partialMatch (by omega)) hcontinues hkj
      omega
    · -- It starts ahead of what was read.
      omega
  · have := hf.lt
    simp only []
    omega

theorem searchBody_step (htext : text.length < 2 ^ 31) (hpattern : pattern.length < 2 ^ 31)
    (hfail : FailTable pattern fail) (h : SearchInv text pattern i s) (hi : i < text.length)
    (hj : s.j < pattern.length) :
    ∃ s', SearchLoop.body text pattern fail s = .ok s' ∧ (∃ i', SearchInv text pattern i' s') ∧
      s'.measure text.length < s.measure text.length := by
  have hge := h.ge
  have hindex := h.index
  have hcases := restartOrEqual_cases hi hge hj
  rw [← hindex] at hcases
  rcases hcases with ⟨htest, hgo⟩ | ⟨k, hk, htest, hne⟩
  · -- `i` and `j` move on together, and what is left of the text counts twice.
    rcases searchBody_advance htext hpattern h hi hj htest hgo with ⟨s', hs', hinv, hj'⟩
    refine ⟨s', hs', ⟨_, hinv⟩, ?_⟩
    have hindex' := hinv.index
    simp only [SearchLoop.measure]
    omega
  · -- Only `j` changes, and gets smaller.
    rcases searchBody_fallBack hfail h hk (by omega) htest hne with ⟨s', hs', hinv, hindex', hj'⟩
    refine ⟨s', hs', ⟨i, hinv⟩, ?_⟩
    have hge' := hinv.ge
    simp only [SearchLoop.measure]
    omega

end SearchBody

/-- The loop of the search ends with the first occurrence read, or with the text read and no
occurrence in it. -/
theorem searchLoop_ends {text pattern : List α} {fail : List Int} {fuel : Nat}
    (htext : text.length < 2 ^ 31) (hpattern : pattern.length < 2 ^ 31)
    (hfail : FailTable pattern fail) (hfuel : 2 * text.length + 1 < fuel) :
    ∃ s i, whileLoop (SearchLoop.cond text.length pattern.length)
        (SearchLoop.body text pattern fail) fuel {} = .ok (some s) ∧
      SearchInv text pattern i s ∧ (i < text.length → pattern.length ≤ s.j) := by
  have hstart := searchInv_start text pattern
  have hcond (s : SearchLoop) (_ : ∃ i, SearchInv text pattern i s) :
      ∃ go, s.cond text.length pattern.length = .ok go := ⟨_, rfl⟩
  have hbody (s : SearchLoop) (hs : ∃ i, SearchInv text pattern i s)
      (hgo : s.cond text.length pattern.length = .ok true) :
      ∃ s', SearchLoop.body text pattern fail s = .ok s' ∧ (∃ i, SearchInv text pattern i s') ∧
        s'.measure text.length < s.measure text.length := by
    rcases hs with ⟨i, hinv⟩
    have hboth := Except.ok.inj hgo
    rw [Bool.and_eq_true, decide_eq_true_iff, decide_eq_true_iff, hinv.index] at hboth
    exact searchBody_step htext hpattern hfail hinv (Int.ofNat_lt.1 hboth.1) hboth.2
  have hmeasure : SearchLoop.measure text.length {} < fuel := by
    simp only [SearchLoop.measure]
    omega
  rcases whileLoop_returns hcond hbody ⟨0, hstart⟩ hmeasure with ⟨s, hrun, ⟨i, hinv⟩, hend⟩
  refine ⟨s, i, hrun, hinv, ?_⟩
  intro hi
  have hneither := Except.ok.inj hend
  rw [Bool.and_eq_false_iff, decide_eq_false_iff_not, decide_eq_false_iff_not, hinv.index]
    at hneither
  omega

section Result

variable {text pattern : List α} {fuel i : Nat} {s : SearchLoop}

omit [DecidableEq α] in
/-- The whole pattern was read: it stands before `i`, and an earlier occurrence would not be
pending. -/
theorem SearchInv.found (h : SearchInv text pattern i s) (hj : s.j = pattern.length) :
    pattern.length ≤ i ∧ FirstOccurrence pattern text (i - pattern.length) := by
  rcases (h.partialMatch pattern.length hj).occursAt h.le with ⟨hle, hocc⟩
  refine ⟨hle, hocc, ?_⟩
  intro q hq hoccq
  have := h.pending q hoccq
  omega

omit [DecidableEq α] in
/-- Fewer elements were read, so the text is at its end, and nothing in it is pending. -/
theorem SearchInv.missing (hpat : pattern ≠ []) (h : SearchInv text pattern i s)
    (hend : i < text.length → pattern.length ≤ s.j) (hj : ¬ (pattern.length : Int) = s.j)
    (p : Nat) : ¬ OccursAt pattern text p := by
  intro hp
  have hpending := h.pending p hp
  have hfit := ((occursAt_iff hpat).1 hp).1
  have hi := h.le
  have hshort : s.j < pattern.length := by
    by_cases hneg : s.j < 0
    · omega
    · have := (h.partialMatch s.j.toNat (by omega)).length_le
      omega
  omega

/-- What `BufferBuffer` returns is read off the loop variables at the end of the search. -/
theorem bufferBuffer_ends (htext : text.length < 2 ^ 31) (hpattern : pattern.length < 2 ^ 31)
    (htextPos : 0 < text.length) (hpos : 0 < pattern.length)
    (hfuel : 2 * (text.length + pattern.length) < fuel) :
    ∃ s i, SearchInv text pattern i s ∧ (i < text.length → pattern.length ≤ s.j) ∧
      bufferBuffer fuel text text.length pattern pattern.length =
        (if (pattern.length : Int) = s.j then do
          let first ← int32 (s.i - pattern.length)
          return some first
        else
          return some (-1)) := by
  rcases resize_ok [] (Int.natCast_nonneg pattern.length) (0 : Int) with ⟨fail₀, hfail₀, hlen⟩
  rw [Int.toNat_natCast] at hlen
  have hboth : ¬ ((text.length : Int) ≤ 0 ∨ (pattern.length : Int) ≤ 0) := by omega
  rcases bufferFailArray_table hpos hpattern hlen (show 2 * pattern.length < fuel by omega) with
    ⟨fail, hfail, htable⟩
  rcases searchLoop_ends htext hpattern htable (show 2 * text.length + 1 < fuel by omega) with
    ⟨s, i, hrun, hinv, hend⟩
  refine ⟨s, i, hinv, hend, ?_⟩
  simp only [bufferBuffer, hfail₀, Checked.ok_bind, if_neg hboth, hfail, hrun]

theorem bufferBuffer_found {p : Nat} (htext : text.length < 2 ^ 31)
    (hpattern : pattern.length < 2 ^ 31) (hpos : 0 < pattern.length)
    (hfuel : 2 * (text.length + pattern.length) < fuel) (hp : FirstOccurrence pattern text p) :
    bufferBuffer fuel text text.length pattern pattern.length = .ok (some (p : Int)) := by
  have hpat : pattern ≠ [] := List.ne_nil_of_length_pos hpos
  have hfit := ((occursAt_iff hpat).1 hp.1).1
  rcases bufferBuffer_ends htext hpattern (show 0 < text.length by omega) hpos hfuel with
    ⟨s, i, hinv, hend, hresult⟩
  by_cases hj : (pattern.length : Int) = s.j
  · rcases hinv.found hj.symm with ⟨hle, hfirst⟩
    obtain rfl : p = i - pattern.length := hp.unique hfirst
    have hi := hinv.le
    have hindex : int32 (s.i - pattern.length) = .ok ((i - pattern.length : Nat) : Int) := by
      rw [hinv.index, int32_ok (by omega) (by omega)]
      congr 1
      omega
    simp only [hresult, if_pos hj, hindex, Checked.ok_bind, Checked.pure_eq_ok]
  · -- A search that ends without the pattern has passed over nothing.
    exact absurd hp.1 (hinv.missing hpat hend hj p)

theorem bufferBuffer_missing (htext : text.length < 2 ^ 31) (hpattern : pattern.length < 2 ^ 31)
    (hpos : 0 < pattern.length) (hfuel : 2 * (text.length + pattern.length) < fuel)
    (hnone : ∀ p, ¬ OccursAt pattern text p) :
    bufferBuffer fuel text text.length pattern pattern.length = .ok (some (-1)) := by
  by_cases hempty : text.length = 0
  · -- There is no text to look at.
    rcases resize_ok [] (Int.natCast_nonneg pattern.length) (0 : Int) with ⟨fail₀, hfail₀, -⟩
    have hshort : (text.length : Int) ≤ 0 ∨ (pattern.length : Int) ≤ 0 := by omega
    simp only [bufferBuffer, hfail₀, Checked.ok_bind, if_pos hshort, Checked.pure_eq_ok]
  · rcases bufferBuffer_ends htext hpattern (show 0 < text.length by omega) hpos hfuel with
      ⟨s, i, hinv, hend, hresult⟩
    by_cases hj : (pattern.length : Int) = s.j
    · exact absurd (hinv.found hj.symm).2.1 (hnone _)
    · simp only [hresult, if_neg hj, Checked.pure_eq_ok]

end Result

/-- `BufferBuffer` is a correct substring search: with enough rounds it returns the first index at
which the pattern stands in the text, and `-1` if there is none. -/
theorem bufferBuffer_search {text pattern : List α} {fuel : Nat} (htext : text.length < 2 ^ 31)
    (hpattern : pattern.length < 2 ^ 31) (hpos : 0 < pattern.length)
    (hfuel : 2 * (text.length + pattern.length) < fuel) :
    ∃ r, bufferBuffer fuel text text.length pattern pattern.length = .ok (some r) ∧
      ((∃ p : Nat, r = p ∧ FirstOccurrence pattern text p) ∨
        (r = -1 ∧ ∀ p, ¬ OccursAt pattern text p)) := by
  rcases firstOccurrence_or_none pattern text with ⟨p, hp⟩ | hnone
  · exact ⟨p, bufferBuffer_found htext hpattern hpos hfuel hp, Or.inl ⟨p, rfl, hp⟩⟩
  · exact ⟨-1, bufferBuffer_missing htext hpattern hpos hfuel hnone, Or.inr ⟨rfl, hnone⟩⟩

/-- A pattern that overlaps with itself, where the first attempt fails at its last element. -/
theorem bufferBuffer_search_overlap :
    ∃ r, bufferBuffer 30 [1, 2, 1, 2, 1, 2, 3] 7 [1, 2, 1, 2, 3] 5 = .ok (some r) ∧ r = 2 ∧
      ((∃ p : Nat, r = p ∧ FirstOccurrence [1, 2, 1, 2, 3] [1, 2, 1, 2, 1, 2, 3] p) ∨
        (r = -1 ∧ ∀ p, ¬ OccursAt [1, 2, 1, 2, 3] [1, 2, 1, 2, 1, 2, 3] p)) := by
  have htext : [1, 2, 1, 2, 1, 2, 3].length < 2 ^ 31 := by decide
  have hpattern : [1, 2, 1, 2, 3].length < 2 ^ 31 := by decide
  have hsearch := bufferBuffer_search htext hpattern (by decide) (show _ < 30 by decide)
  rcases hsearch with ⟨r, hr, hfirst⟩
  refine ⟨r, hr, ?_, hfirst⟩
  cases hr
  rfl

end Septem
