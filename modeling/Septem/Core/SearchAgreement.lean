import Septem.Core.BufferSearch
import Septem.Core.SyncwordSearch

/-!
# SearchAgreement — the scan for a syncword against the search for its bytes

`BufferBufferSyncword` is a search for the four bytes of a word, and so is `BufferBuffer` when it
is given these bytes as the pattern.  Both return the first index, except that the scan does not
look at the last index a word fits in:

* `bufferBuffer_bytes_found` and `bufferBuffer_bytes_missing` are the results of the general search
  for the bytes of a word;
* `bufferBufferSyncword_skipsEnd` is the word that only the general search finds;
* `bufferBufferSyncword_agrees_iff` says that there is no other difference.
-/

namespace Septem

open Cxx

variable {buffer : Bytes} {syncword : Int32} {fuel i : Nat}

/-- What a search is to return: the first index of the pattern, or `-1` if it does not occur. -/
def IsFirstIndex (pat txt : Bytes) (r : Int) : Prop :=
  (∃ i : Nat, r = i ∧ FirstOccurrence pat txt i) ∨ (r = -1 ∧ ∀ i, ¬ OccursAt pat txt i)

/-- The word is met for the first time in the last four bytes of the buffer. -/
def FirstAtEnd (syncword : Int32) (buffer : Bytes) : Prop :=
  ∃ i, i + 4 = buffer.length ∧ FirstOccurrence (toBytes syncword) buffer i

/-! ## The general search for a word -/

theorem length_toBytes_syncword (syncword : Int32) : (toBytes syncword).length = 4 :=
  length_toBytes syncword

theorem syncword_fits (h : OccursAt (toBytes syncword) buffer i) :
    i + 4 ≤ buffer.length := by
  have hlen := length_toBytes_syncword syncword
  have hpat : toBytes syncword ≠ [] := List.ne_nil_of_length_pos (by omega)
  have hfit := ((occursAt_iff hpat).1 h).1
  omega

theorem bufferBuffer_bytes_found (hsize : buffer.length < 2 ^ 31)
    (hfuel : 2 * (buffer.length + 4) < fuel)
    (h : FirstOccurrence (toBytes syncword) buffer i) :
    bufferBuffer fuel buffer buffer.length (toBytes syncword) 4 = .ok (some (i : Int)) := by
  have hlen := length_toBytes_syncword syncword
  have hfound := bufferBuffer_found hsize (show (toBytes syncword).length < 2 ^ 31 by omega)
    (by omega) (show 2 * (buffer.length + (toBytes syncword).length) < fuel by omega) h
  rwa [hlen] at hfound

theorem bufferBuffer_bytes_missing (hsize : buffer.length < 2 ^ 31)
    (hfuel : 2 * (buffer.length + 4) < fuel)
    (h : ∀ i, ¬ OccursAt (toBytes syncword) buffer i) :
    bufferBuffer fuel buffer buffer.length (toBytes syncword) 4 = .ok (some (-1)) := by
  have hlen := length_toBytes_syncword syncword
  have hmissing := bufferBuffer_missing hsize (show (toBytes syncword).length < 2 ^ 31 by omega)
    (by omega) (show 2 * (buffer.length + (toBytes syncword).length) < fuel by omega) h
  rwa [hlen] at hmissing

/-! ## The scan -/

/-- A word that stands at the end for the first time is not looked at. -/
theorem bufferBufferSyncword_skipsEnd (hsize : buffer.length < 2 ^ 31)
    (h : FirstAtEnd syncword buffer) :
    bufferBufferSyncword buffer buffer.length syncword = .ok (-1) := by
  rcases h with ⟨i, hend, hfirst⟩
  refine bufferBufferSyncword_missing hsize ?_
  intro j hj
  -- A place the scan looks at would be the first one as well, and that is the end.
  have hlt : j + 4 < buffer.length := hj.1
  have hji : j = i := hj.2.unique hfirst
  omega

theorem syncwordAt_of_firstOccurrence (hend : ¬ FirstAtEnd syncword buffer)
    (h : FirstOccurrence (toBytes syncword) buffer i) : SyncwordAt syncword buffer i := by
  have hfit := syncword_fits h.1
  have hne : ¬ i + 4 = buffer.length := fun heq => hend ⟨i, heq, h⟩
  exact ⟨by omega, h⟩

/-- On every buffer the scan returns what the search for the bytes of the word returns, the first
index of the word or `-1`, exactly if the word does not stand at the end for the first time. -/
theorem bufferBufferSyncword_agrees_iff (hsize : buffer.length < 2 ^ 31)
    (hfuel : 2 * (buffer.length + 4) < fuel) :
    (∃ r, bufferBufferSyncword buffer buffer.length syncword = .ok r ∧
      bufferBuffer fuel buffer buffer.length (toBytes syncword) 4 = .ok (some r) ∧
      IsFirstIndex (toBytes syncword) buffer r) ↔ ¬ FirstAtEnd syncword buffer := by
  constructor
  · rintro ⟨r, hscan, hsearch, -⟩ hend
    rw [bufferBufferSyncword_skipsEnd hsize hend] at hscan
    rcases hend with ⟨i, -, hfirst⟩
    rw [bufferBuffer_bytes_found hsize hfuel hfirst] at hsearch
    -- The scan says `-1`, the search says `i`.
    have hr : -1 = r := Except.ok.inj hscan
    have hi : (i : Int) = r := Option.some.inj (Except.ok.inj hsearch)
    omega
  · intro hend
    rcases firstOccurrence_or_none (toBytes syncword) buffer with ⟨i, hfirst⟩ | hnone
    · exact ⟨i, bufferBufferSyncword_found hsize (syncwordAt_of_firstOccurrence hend hfirst),
        bufferBuffer_bytes_found hsize hfuel hfirst, Or.inl ⟨i, rfl, hfirst⟩⟩
    · -- A word that does not occur is not at a place the scan looks at either.
      have hscan : bufferBufferSyncword buffer buffer.length syncword = .ok (-1) :=
        bufferBufferSyncword_missing hsize fun i hi => hnone i hi.2.1
      exact ⟨-1, hscan, bufferBuffer_bytes_missing hsize hfuel hnone, Or.inr ⟨rfl, hnone⟩⟩

/-- A word of equal bytes, which stands at three places, the last of them the end. -/
theorem bufferBufferSyncword_agrees_repeated :
    ∃ r, bufferBufferSyncword [1, 7, 7, 7, 7, 7, 7] 7 0x07070707 = .ok r ∧
      bufferBuffer 30 [1, 7, 7, 7, 7, 7, 7] 7 (toBytes (0x07070707 : Int32)) 4 = .ok (some r) ∧
      IsFirstIndex (toBytes (0x07070707 : Int32)) [1, 7, 7, 7, 7, 7, 7] r := by
  have hsize : ([1, 7, 7, 7, 7, 7, 7] : Bytes).length < 2 ^ 31 := by decide
  refine (bufferBufferSyncword_agrees_iff hsize (show _ < 30 by decide)).2 ?_
  have hfirst : FirstOccurrence (toBytes (0x07070707 : Int32)) [1, 7, 7, 7, 7, 7, 7] 1 := by decide
  rintro ⟨i, hend, hi⟩
  obtain rfl : i = 1 := hi.unique hfirst
  exact absurd hend (by decide)

/-- The word is all of the buffer: the search finds it at `0`, the scan runs no round. -/
theorem wordAtEnd_missed :
    FirstOccurrence (toBytes (0x04030201 : Int32)) [1, 2, 3, 4] 0 ∧
      bufferBuffer 30 [1, 2, 3, 4] 4 (toBytes (0x04030201 : Int32)) 4 = .ok (some 0) ∧
      bufferBufferSyncword [1, 2, 3, 4] 4 0x04030201 = .ok (-1) := by
  decide

end Septem
