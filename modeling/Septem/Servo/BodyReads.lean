import Septem.Library.Logged
import Septem.Servo.NetBuffer

/-!
# BodyReads — `GetInt32` and `GetFloat` of `FSNetBufferBody`

The typed reads of a packet body in `Servo/Protocol/ServoProtocol.h`.  Both test
`InIndex + 3 < length` and then read four bytes from `InIndex` on; `getBytes` is what they share,
with the indices it reads in a log.

`ReadsValue` says what such a read is to do for every `int32` index.  The test has no lower bound
and its sum can overflow; `typedReads_iff` is the exact condition on the index.
-/

namespace Septem

open Cxx Logged

/-! ## The reads -/

/-- `Union32`, by its four bytes. -/
structure Union32 where
  byte : Bytes := [0, 0, 0, 0]
  length_byte : byte.length = 4 := by rfl

namespace Union32

/-- `byte[i] = b`. -/
def setByte (u : Union32) (i : Nat) (b : UInt8) : Checked Union32 :=
  if i < 4 then
    .ok { byte := u.byte.set i b, length_byte := by rw [List.length_set, u.length_byte] }
  else
    .error .outOfBounds

def vFloat (u : Union32) : Single :=
  ofBytes u.byte

end Union32

namespace FSNetBufferBody

section Reads

variable {τ σ : Type}

/-- `bufferPtr[index]`; the event is the index. -/
def byteAt (this : FSNetBufferBody) (index : Int) : Logged Int UInt8 :=
  match this.bufferPtr with
  | none => liftM (.error .nullPointer : Checked UInt8)
  | some array => readAt (fun i _ => i) array index

/-- One round of the loops: `place` works on `bufferPtr[InIndex + i]`. -/
def getByte (place : Nat → UInt8 → σ → Checked σ) (this : FSNetBufferBody) (inIndex : Int32)
    (i : Nat) (s : σ) : Logged Int σ := do
  let index ← int32 (inIndex.toInt + i)
  let byte ← this.byteAt index
  place i byte s

/-- What `GetInt32` and `GetFloat` share; `value` is assigned to `OutValue` in the end. -/
def getBytes (start : σ) (place : Nat → UInt8 → σ → Checked σ) (value : σ → τ)
    (this : FSNetBufferBody) (inIndex : Int32) (outValue : τ) : Logged Int (Bool × τ) := do
  let last ← int32 (inIndex.toInt + 3)
  if last < this.length.toInt then do
    let s ← forLoop (getByte place this inIndex) 4 0 start
    return (true, value s)
  else
    return (false, outValue)

/-- `GetInt32(InIndex, OutValue)`: `OutValue += n << (i * 8)`, from `0` on. -/
def getInt32 : FSNetBufferBody → Int32 → Int32 → Logged Int (Bool × Int32) :=
  getBytes 0 (fun i n outValue => addInt32 outValue (shiftLeft (Int32.ofNat n.toNat) (i * 8))) id

/-- `GetFloat(InIndex, OutValue)`: `m_float.byte[i] = ...`, and `OutValue = m_float.v_float`. -/
def getFloat : FSNetBufferBody → Int32 → Single → Logged Int (Bool × Single) :=
  getBytes {} (fun i b mFloat => mFloat.setByte i b) Union32.vFloat

end Reads

/-! ## What a read is to do -/

/-- The four bytes from `inIndex` on lie in the body. -/
def InBody (this : FSNetBufferBody) (inIndex : Int32) : Prop :=
  0 ≤ inIndex.toInt ∧ inIndex.toInt + 4 ≤ this.length.toInt

/-- The read returns `true` exactly inside the body, with the value these bytes represent and after
reading them only; where it returns `false`, nothing is read and `OutValue` is what it was. -/
def ReadsValue {τ : Type} [TriviallyCopyable τ]
    (get : FSNetBufferBody → Int32 → τ → Logged Int (Bool × τ)) (this : FSNetBufferBody)
    (inIndex : Int32) (outValue : τ) : Prop :=
  ∃ found value reads, (get this inIndex outValue).run [] = .ok ((found, value), reads) ∧
    (found = true ↔ this.InBody inIndex) ∧
    (found = true →
      reads = [inIndex.toInt, inIndex.toInt + 1, inIndex.toInt + 2, inIndex.toInt + 3] ∧
      toBytes value = slice this.bytes inIndex.toInt.toNat 4) ∧
    (found = false → reads = [] ∧ value = outValue)

/-- `InIndex + 3` does not overflow, and a negative index does not pass the test. -/
def IndexChecked (this : FSNetBufferBody) (inIndex : Int32) : Prop :=
  inIndex.toInt + 3 < 2 ^ 31 ∧ (inIndex.toInt < 0 → this.length.toInt ≤ inIndex.toInt + 3)

/-! ## The shared part -/

section ByteAt

variable {this : FSNetBufferBody} {log : List Int}

theorem byteAt_ok {k : Nat} {b : UInt8} (h : this.bytes[k]? = some b) :
    (this.byteAt k).run log = .ok (b, log ++ [(k : Int)]) := by
  unfold bytes at h
  unfold byteAt
  cases hptr : this.bufferPtr with
  | none =>
      rw [hptr] at h
      cases h
  | some array =>
      rw [hptr] at h
      exact run_readAt_eq_ok.2 ⟨elementAt_eq_ok.2 h, rfl⟩

/-- Nothing stands in front of the array. -/
theorem byteAt_negative {index : Int} (h : index < 0) (b : UInt8) (log' : List Int) :
    ¬ (this.byteAt index).run log = .ok (b, log') := by
  intro hrun
  unfold byteAt at hrun
  cases hptr : this.bufferPtr with
  | none =>
      rw [hptr] at hrun
      cases hrun
  | some array =>
      rw [hptr] at hrun
      rcases elementAt_inv (run_readAt_eq_ok.1 hrun).1 with ⟨k, rfl, -⟩
      omega

end ByteAt

/-- The rounds of a read put the bytes together: `Inv bs s` says that `s` holds `bs`. -/
structure Assembles {τ σ : Type} [TriviallyCopyable τ] (start : σ)
    (place : Nat → UInt8 → σ → Checked σ) (value : σ → τ) (Inv : Bytes → σ → Prop) : Prop where
  start : Inv [] start
  place : ∀ bs b s, bs.length < 4 → Inv bs s →
    ∃ s', place bs.length b s = .ok s' ∧ Inv (bs ++ [b]) s'
  value : ∀ bs s, bs.length = 4 → Inv bs s → toBytes (value s) = bs

/-- `n` indices from `k` on. -/
def indicesFrom (k n : Nat) : List Int :=
  (List.range n).map fun j => ((k + j : Nat) : Int)

section Shared

variable {τ σ : Type} [TriviallyCopyable τ] {start : σ} {place : Nat → UInt8 → σ → Checked σ}
  {value : σ → τ} {Inv : Bytes → σ → Prop} {this : FSNetBufferBody} {inIndex : Int32} {outValue : τ}

/-- After `i` rounds the first `i` bytes are put together, and their indices are in the log. -/
theorem getByte_inside (h : Assembles start place value Inv) {k : Nat} (hk : inIndex.toInt = k)
    (hsize : this.bytes.length < 2 ^ 31) (hfit : k + 4 ≤ this.bytes.length) (i : Nat) (s : σ)
    (log : List Int) (hi : i < 4)
    (hs : Inv (slice this.bytes k i) s ∧ log = indicesFrom k i) :
    ∃ s' log', (getByte place this inIndex i s).run log = .ok (s', log') ∧
      Inv (slice this.bytes k (i + 1)) s' ∧ log' = indicesFrom k (i + 1) := by
  rcases hs with ⟨hinv, rfl⟩
  have hget : this.bytes[k + i]? = some this.bytes[k + i] := List.getElem?_eq_getElem (by omega)
  have hslice : (slice this.bytes k i).length = i := length_slice (by omega)
  rcases h.place (slice this.bytes k i) this.bytes[k + i] s (by omega) hinv with
    ⟨s', hplace, hinv'⟩
  rw [hslice] at hplace
  have hindex : int32 (inIndex.toInt + i) = .ok ((k + i : Nat) : Int) := by
    rw [hk]
    exact int32_add (show k + i < 2 ^ 31 by omega)
  refine ⟨s', _, run_bind_eq_ok.2 ⟨_, _, run_lift_eq_ok.2 ⟨hindex, rfl⟩, run_bind_eq_ok.2
    ⟨_, _, byteAt_ok hget, run_lift_eq_ok.2 ⟨hplace, rfl⟩⟩⟩, ?_, ?_⟩
  · rwa [slice_succ hget]
  · rw [indicesFrom, indicesFrom, List.range_succ, List.map_append]
    rfl

/-- Inside the body the four bytes are read and put together. -/
theorem getBytes_inside (h : Assembles start place value Inv) (hin : this.InBody inIndex) :
    ∃ v, (getBytes start place value this inIndex outValue).run [] =
        .ok ((true, v), [inIndex.toInt, inIndex.toInt + 1, inIndex.toInt + 2, inIndex.toInt + 3]) ∧
      toBytes v = slice this.bytes inIndex.toInt.toNat 4 := by
  have hlen := this.length_toInt
  have hsize := this.length.toInt_lt
  -- Inside the body the index is a natural number.
  obtain ⟨k, hk⟩ : ∃ k : Nat, inIndex.toInt = k := ⟨inIndex.toInt.toNat, by have := hin.1; omega⟩
  have hfit : k + 4 ≤ this.bytes.length := by
    have := hin.2
    omega
  rw [hk, Int.toNat_natCast]
  have hround := getByte_inside h hk (by omega) hfit
  rcases forLoop_returns hround (show 0 + 4 = 4 from rfl) ⟨h.start, rfl⟩ with
    ⟨s, log, hloop, hinv, rfl⟩
  have hlast : int32 (inIndex.toInt + 3) = .ok (inIndex.toInt + 3) :=
    int32_ok (by omega) (by omega)
  have htest : inIndex.toInt + 3 < this.length.toInt := by omega
  refine ⟨value s, ?_, h.value _ s (length_slice hfit) hinv⟩
  refine run_bind_eq_ok.2 ⟨_, _, run_lift_eq_ok.2 ⟨hlast, rfl⟩, ?_⟩
  rw [if_pos htest]
  exact run_bind_eq_ok.2 ⟨_, _, hloop, run_pure_eq_ok.2 ⟨rfl, rfl⟩⟩

omit [TriviallyCopyable τ] in
/-- A tested index that is not inside the body is refused. -/
theorem getBytes_outside (hlast : inIndex.toInt + 3 < 2 ^ 31)
    (hout : this.length.toInt ≤ inIndex.toInt + 3) :
    (getBytes start place value this inIndex outValue).run [] = .ok ((false, outValue), []) := by
  have hlow := inIndex.le_toInt
  refine run_bind_eq_ok.2
    ⟨_, _, run_lift_eq_ok.2 ⟨int32_ok (by omega) hlast, rfl⟩, ?_⟩
  -- The branch without the loop, so nothing is read.
  rw [if_neg (Int.not_lt.2 hout)]
  exact run_pure_eq_ok.2 ⟨rfl, rfl⟩

omit [TriviallyCopyable τ] in
/-- What returned was tested without an overflow, and did not start in front of the array. -/
theorem indexChecked_of_run {result : Bool × τ} {log : List Int}
    (hrun : (getBytes start place value this inIndex outValue).run [] = .ok (result, log)) :
    this.IndexChecked inIndex := by
  rcases run_bind_eq_ok.1 hrun with ⟨last, _, htest, hrest⟩
  rcases run_lift_eq_ok.1 htest with ⟨hlast, rfl⟩
  rcases int32_eq_ok.1 hlast with ⟨hrange, rfl⟩
  refine ⟨hrange.2, ?_⟩
  intro hneg
  by_contra hpass
  rw [if_pos (by omega)] at hrest
  -- The first round reads at the index itself.
  rcases run_bind_eq_ok.1 hrest with ⟨s, mid, hloop, -⟩
  rcases run_bind_eq_ok.1 hloop with ⟨s₁, _, hfirst, -⟩
  rcases run_bind_eq_ok.1 hfirst with ⟨index, _, hindex, hread⟩
  rcases int32_eq_ok.1 (run_lift_eq_ok.1 hindex).1 with ⟨-, rfl⟩
  rcases run_bind_eq_ok.1 hread with ⟨b, log', hbyte, -⟩
  exact byteAt_negative (by omega) b log' hbyte

theorem readsValue_iff (h : Assembles start place value Inv) :
    ReadsValue (getBytes start place value) this inIndex outValue ↔ this.IndexChecked inIndex := by
  constructor
  · rintro ⟨found, v, reads, hrun, -⟩
    exact indexChecked_of_run hrun
  · intro hchecked
    have hlen := this.length_toInt
    by_cases hin : this.InBody inIndex
    · rcases getBytes_inside h hin with ⟨v, hrun, hv⟩
      exact ⟨true, v, _, hrun, ⟨fun _ => hin, fun _ => rfl⟩, fun _ => ⟨rfl, hv⟩, nofun⟩
    · -- A negative index is refused by assumption, another one because it is too large.
      have hout : this.length.toInt ≤ inIndex.toInt + 3 := by
        by_cases hneg : inIndex.toInt < 0
        · exact hchecked.2 hneg
        · have : ¬ (0 ≤ inIndex.toInt ∧ inIndex.toInt + 4 ≤ this.length.toInt) := hin
          omega
      exact ⟨false, outValue, [], getBytes_outside hchecked.1 hout,
        ⟨nofun, fun hin' => absurd hin' hin⟩, nofun, fun _ => ⟨rfl, rfl⟩⟩

end Shared

/-! ## Putting the bytes together -/

/-- The sum never leaves the range, not even where the last byte is shifted into the sign. -/
theorem placed_range {a len : Nat} (hlen : len < 4) (ha : a < 256 ^ len) (b : UInt8) :
    -2 ^ 31 ≤ (Int32.ofInt a).toInt + (Int32.ofInt (b.toNat * 2 ^ (len * 8))).toInt ∧
      (Int32.ofInt a).toInt + (Int32.ofInt (b.toNat * 2 ^ (len * 8))).toInt < 2 ^ 31 := by
  have hb : b.toNat < 256 := b.toNat_lt
  have hsmall : (256 : Nat) ^ len ≤ 256 ^ 3 := Nat.pow_le_pow_right (by decide) (by omega)
  have hlow : (Int32.ofInt a).toInt = a := Int32.toInt_ofInt_of_le (by omega) (by omega)
  have hhigh : (Int32.ofInt (b.toNat * 2 ^ (len * 8))).toInt =
      ((b.toNat : Int) * 2 ^ (len * 8)).bmod 4294967296 := Int32.toInt_ofInt
  rw [hlow, hhigh, Int.bmod_def]
  -- Only the fourth byte can reach the sign, and then what it is added to is below `2 ^ 24`.
  obtain rfl | rfl | rfl | rfl : len = 0 ∨ len = 1 ∨ len = 2 ∨ len = 3 := by omega
  all_goals
    split <;> omega

theorem shiftLeft_byte (b : UInt8) (bits : Nat) :
    shiftLeft (Int32.ofNat b.toNat) bits = Int32.ofInt (b.toNat * 2 ^ bits) := by
  have hb : b.toNat < 256 := b.toNat_lt
  rw [shiftLeft, Int32.toInt_ofNat_of_lt (by omega)]

theorem toBytes_ofInt_ofLE {bs : Bytes} (h : bs.length = 4) :
    toBytes (Int32.ofInt (ofLE bs)) = bs := by
  have hof : Int32.ofInt (ofLE bs) = (ofBytes bs : Int32) := by
    rw [Int32.ofInt_eq_ofNat]
    rfl
  rw [hof]
  exact Unpadded.toBytes_ofBytes bs h

theorem getInt32_assembles :
    Assembles (0 : Int32)
      (fun i n outValue => addInt32 outValue (shiftLeft (Int32.ofNat n.toNat) (i * 8))) id
      (fun bs s => s = Int32.ofInt (ofLE bs)) where
  start := rfl
  place := by
    rintro bs b _ hlen rfl
    rcases placed_range hlen (ofLE_lt bs) b with ⟨hlo, hhi⟩
    refine ⟨_, by rw [shiftLeft_byte, addInt32_ok hlo hhi], ?_⟩
    -- Shifting by `i * 8` bits is multiplying by the weight of byte `i`.
    have hpow : (256 : Nat) ^ bs.length = 2 ^ (bs.length * 8) := by
      rw [Nat.mul_comm, Nat.pow_mul]
    rw [← Int32.ofInt_add, ofLE_concat, hpow]
    norm_cast
  value := by
    rintro bs _ hlen rfl
    exact toBytes_ofInt_ofLE hlen

theorem getFloat_assembles :
    Assembles ({} : Union32) (fun i b mFloat => mFloat.setByte i b) Union32.vFloat
      (fun bs u => u.byte.take bs.length = bs) where
  start := rfl
  place := by
    intro bs b u hlen hbytes
    refine ⟨_, if_pos hlen, ?_⟩
    -- The byte goes behind those that were placed, and leaves them alone.
    have hfit : bs.length < (u.byte.set bs.length b).length := by
      rw [List.length_set, u.length_byte]
      exact hlen
    rw [List.length_append, List.length_singleton, List.take_succ_eq_append_getElem hfit,
      List.getElem_set_self, List.take_set_of_le (Nat.le_refl _), hbytes]
  value := by
    intro bs u hlen hbytes
    rw [← u.length_byte.trans hlen.symm, List.take_length] at hbytes
    rw [← hbytes]
    exact Unpadded.toBytes_ofBytes _ u.length_byte

/-- For every body and every `int32` index, both typed reads stay inside the body, return what the
four little-endian bytes represent and refuse every other index, exactly if `InIndex + 3` does not
overflow and a negative index does not pass the test. -/
theorem typedReads_iff (this : FSNetBufferBody) (inIndex outInt : Int32) (outFloat : Single) :
    (ReadsValue getInt32 this inIndex outInt ∧ ReadsValue getFloat this inIndex outFloat) ↔
      this.IndexChecked inIndex := by
  have hint : ReadsValue getInt32 this inIndex outInt ↔ this.IndexChecked inIndex :=
    readsValue_iff getInt32_assembles
  have hfloat : ReadsValue getFloat this inIndex outFloat ↔ this.IndexChecked inIndex :=
    readsValue_iff getFloat_assembles
  rw [hint, hfloat, and_self_iff]

example : (getInt32 (ofArray [9, 0xFE, 0xFF, 0xFF, 0xFF] (by decide)) 1 7).run [] =
    .ok ((true, -2), [1, 2, 3, 4]) := by
  rfl

/-- A body of four bytes: the index `-1` passes the test and is read in front of the array, and at
the largest index the sum of the test overflows. -/
theorem uncheckedIndex_faults :
    ¬ (ofArray [1, 2, 3, 4] (by decide)).InBody (-1) ∧
      (getInt32 (ofArray [1, 2, 3, 4] (by decide)) (-1) 7).run [] = .error .outOfBounds ∧
      ¬ ReadsValue getInt32 (ofArray [1, 2, 3, 4] (by decide)) (-1) 7 ∧
      (getFloat (ofArray [1, 2, 3, 4] (by decide)) 0x7FFFFFFF ⟨7⟩).run [] =
        .error .signedOverflow := by
  have hrun : (getInt32 (ofArray [1, 2, 3, 4] (by decide)) (-1) 7).run [] =
      .error .outOfBounds := rfl
  refine ⟨by unfold InBody; decide, hrun, ?_, rfl⟩
  rintro ⟨found, value, reads, hreturned, -⟩
  rw [hrun] at hreturned
  cases hreturned

end FSNetBufferBody

end Septem
