import Mathlib.Algebra.Group.Int.Defs
import Mathlib.Algebra.Group.Nat.Defs
import Mathlib.Data.List.Basic

/-!
# Checked — C++ evaluations that may be undefined

A shallow embedding of C++ code has to say where the language gives up: a read past a block, a
signed overflow, a `pop` on an empty container.  `Checked α` is the type of such evaluations:
either a value or the `Fault` that stopped it.

The module provides

1. the faults and the `Checked` monad, with the equations its `do` blocks are run by;
2. `int32`, the range check every signed 32-bit result goes through;
3. byte blocks: `offset` (pointer + index), `memcpyFrom` (a read), `writeAt` (a write);
4. a write cursor over such blocks and its loops (`put`, `putAll`, `putLoop`);
5. `elementAt` and `resize`, as `std::vector` has them.
-/

namespace Cxx

universe u v

/-! ## Faults -/

/-- What stops an evaluation. -/
inductive Fault
  | outOfBounds
  | signedOverflow
  | lengthError
  | emptyContainer
  | nullPointer
  | assertion
  deriving DecidableEq, Repr

abbrev Checked (α : Type u) : Type u := Except Fault α

namespace Checked

variable {α : Type u} {β : Type u}

@[simp] theorem ok_bind (a : α) (f : α → Checked β) : (Except.ok a >>= f) = f a := rfl

@[simp] theorem error_bind (e : Fault) (f : α → Checked β) :
    ((Except.error e : Checked α) >>= f) = Except.error e := rfl

@[simp] theorem pure_eq_ok (a : α) : (pure a : Checked α) = Except.ok a := rfl

/-- A bind returns exactly when its first part returns and the rest does on that value. -/
theorem bind_eq_ok {x : Checked α} {f : α → Checked β} {b : β} :
    (x >>= f) = .ok b ↔ ∃ a, x = .ok a ∧ f a = .ok b := by
  cases x with
  | error e => simp
  | ok a => simp

theorem map_eq_bind {α β : Type} (f : α → β) (x : Checked α) :
    x.map f = x >>= fun a => pure (f a) := by
  cases x with
  | error e => rfl
  | ok a => rfl

end Checked

/-! ## Signed 32-bit arithmetic -/

/-- The value `z` as a signed 32-bit result; outside the range the arithmetic is undefined. -/
def int32 (z : Int) : Checked Int :=
  if -2 ^ 31 ≤ z ∧ z < 2 ^ 31 then .ok z else .error .signedOverflow

theorem int32_ok {z : Int} (hlo : -2 ^ 31 ≤ z) (hhi : z < 2 ^ 31) : int32 z = .ok z := by
  exact if_pos ⟨hlo, hhi⟩

/-- An index that moves on inside the range. -/
theorem int32_add {i n : Nat} (h : i + n < 2 ^ 31) :
    int32 ((i : Int) + n) = .ok ((i + n : Nat) : Int) := by
  rw [int32_ok (by omega) (by omega)]
  rfl

theorem int32_eq_ok {z y : Int} : int32 z = .ok y ↔ (-2 ^ 31 ≤ z ∧ z < 2 ^ 31) ∧ y = z := by
  unfold int32
  split
  · rename_i h
    simp only [h, and_self, true_and, Except.ok.injEq]
    exact eq_comm
  · rename_i h
    exact ⟨nofun, fun hy => absurd hy.1 h⟩

/-- `a + b` of two `int32`. -/
def addInt32 (a b : Int32) : Checked Int32 := do
  let sum ← int32 (a.toInt + b.toInt)
  return Int32.ofInt sum

theorem addInt32_ok {a b : Int32} (hlo : -2 ^ 31 ≤ a.toInt + b.toInt)
    (hhi : a.toInt + b.toInt < 2 ^ 31) : addInt32 a b = .ok (a + b) := by
  simp only [addInt32, int32_ok hlo hhi, Checked.ok_bind, Checked.pure_eq_ok, Int32.ofInt_add,
    Int32.ofInt_toInt]

/-- `n << bits`: the `int32` congruent to `n * 2 ^ bits`. -/
def shiftLeft (n : Int32) (bits : Nat) : Int32 :=
  Int32.ofInt (n.toInt * 2 ^ bits)

/-- A size converted to `int32` never becomes larger than it was. -/
theorem toInt_ofNat_le (n : Nat) : (Int32.ofNat n).toInt ≤ n := by
  have hmod : (n : Int) % (Int32.size : Nat) ≤ n := by
    exact_mod_cast Nat.mod_le n Int32.size
  rw [Int32.toInt_ofNat', Int.bmod_def]
  split
  · exact hmod
  · exact Int.le_trans (Int.sub_le_self _ (Int.natCast_nonneg _)) hmod

/-! ## Byte blocks -/

abbrev Bytes : Type := List UInt8

/-- The `len` entries of `mem` from index `off` on. -/
def slice {α : Type u} (mem : List α) (off len : Nat) : List α :=
  (mem.drop off).take len

section Slice

variable {α : Type u}

theorem length_slice {mem : List α} {off len : Nat} (h : off + len ≤ mem.length) :
    (slice mem off len).length = len := by
  simp only [slice, List.length_take, List.length_drop]
  omega

/-- Adjacent slices make one slice. -/
theorem slice_append_slice (mem : List α) (off len len' : Nat) :
    slice mem off len ++ slice mem (off + len) len' = slice mem off (len + len') := by
  simp only [slice, ← List.drop_drop]
  exact (List.take_add ..).symm

/-- A slice and the entry behind it. -/
theorem slice_succ {mem : List α} {off len : Nat} {a : α} (h : mem[off + len]? = some a) :
    slice mem off (len + 1) = slice mem off len ++ [a] := by
  have hget : (mem.drop off)[len]? = some a := by rw [List.getElem?_drop, h]
  rw [slice, List.take_add_one, hget, slice]
  rfl

/-- A slice that lies behind a prefix. -/
theorem slice_append_right (pre mem : List α) (off len : Nat) :
    slice (pre ++ mem) (pre.length + off) len = slice mem off len := by
  have hdrop : (pre ++ mem).drop (pre.length + off) = mem.drop off := by
    rw [← List.drop_drop, List.drop_left]
  simp only [slice, hdrop]

/-- A slice that ends inside the first part. -/
theorem slice_append_left {mem : List α} (suf : List α) {off len : Nat}
    (h : off + len ≤ mem.length) : slice (mem ++ suf) off len = slice mem off len := by
  have hoff : off ≤ mem.length := by omega
  have hlen : len ≤ (mem.drop off).length := by simp only [List.length_drop]; omega
  simp [slice, List.drop_append_of_le_length hoff, List.take_append_of_le_length hlen]

/-- A slice of what stands behind an index. -/
theorem slice_drop (mem : List α) (i off len : Nat) :
    slice (mem.drop i) off len = slice mem (i + off) len := by
  rw [slice, List.drop_drop, slice]

/-- An entry outside a slice can be changed without changing the slice. -/
theorem slice_set {mem : List α} {off len j : Nat} (h : j < off ∨ off + len ≤ j) (a : α) :
    slice (mem.set j a) off len = slice mem off len := by
  rcases h with hbefore | hbehind
  · rw [slice, List.drop_set_of_lt hbefore, slice]
  · by_cases hoff : j < off
    · rw [slice, List.drop_set_of_lt hoff, slice]
    · rw [slice, List.drop_set, if_neg hoff, List.take_set_of_le (by omega), slice]

/-- The middle part of a concatenation, by its offset and length. -/
theorem slice_middle (pre mid suf : List α) :
    slice (pre ++ (mid ++ suf)) pre.length mid.length = mid := by
  calc
    slice (pre ++ (mid ++ suf)) pre.length mid.length
        = slice (mid ++ suf) 0 mid.length := slice_append_right pre (mid ++ suf) 0 mid.length
    _ = mid := by simp [slice]

end Slice

/-- Pointer arithmetic `mem + index`: the block as it is seen from there. -/
def offset (mem : Bytes) (index : Int) : Checked Bytes :=
  if 0 ≤ index ∧ index ≤ mem.length then .ok (mem.drop index.toNat) else .error .outOfBounds

theorem offset_ok {mem : Bytes} {i : Nat} (h : i ≤ mem.length) :
    offset mem (i : Int) = .ok (mem.drop i) := by
  have hi : (0 : Int) ≤ i ∧ (i : Int) ≤ mem.length := by omega
  simp [offset, hi]

@[simp] theorem offset_zero (mem : Bytes) : offset mem 0 = .ok mem :=
  offset_ok (Nat.zero_le mem.length)

/-- `memcpy` out of a block: its first `n` bytes, which have to exist. -/
def memcpyFrom (mem : Bytes) (n : Nat) : Checked { bs : Bytes // bs.length = n } :=
  if h : n ≤ mem.length then .ok ⟨mem.take n, List.length_take_of_le h⟩ else .error .outOfBounds

theorem memcpyFrom_ok {mem : Bytes} {n : Nat} (h : n ≤ mem.length) :
    memcpyFrom mem n = .ok ⟨mem.take n, List.length_take_of_le h⟩ := by
  simp [memcpyFrom, h]

/-- `memcpy` into a block: the bytes from `off` on are overwritten by `bs`. -/
def writeAt (mem : Bytes) (off : Nat) (bs : Bytes) : Checked Bytes :=
  if off + bs.length ≤ mem.length then
    .ok (mem.take off ++ bs ++ mem.drop (off + bs.length))
  else
    .error .outOfBounds

/-- A write right behind a known prefix. -/
theorem writeAt_append {pre suf bs : Bytes} (h : bs.length ≤ suf.length) :
    writeAt (pre ++ suf) pre.length bs = .ok (pre ++ bs ++ suf.drop bs.length) := by
  have hfit : pre.length + bs.length ≤ (pre ++ suf).length := by
    simp only [List.length_append]
    omega
  -- The kept prefix is `pre` and nothing of `suf`.
  simp only [writeAt, if_pos hfit]
  simp [List.drop_append]

theorem length_of_writeAt {mem mem' bs : Bytes} {off : Nat} (h : writeAt mem off bs = .ok mem') :
    mem'.length = mem.length := by
  unfold writeAt at h
  split at h
  · rename_i hfit
    cases h
    simp only [List.length_append, List.length_take, List.length_drop]
    omega
  · cases h

/-! ## Cursors -/

/-- A block being written front to back, and the index of the next write. -/
abbrev WriteCursor : Type := Bytes × Nat

/-- `memcpy(buffer + index, &value, size); index += size;` -/
def put (bs : Bytes) (cur : WriteCursor) : Checked WriteCursor := do
  let mem ← writeAt cur.1 cur.2 bs
  return (mem, cur.2 + bs.length)

/-- A loop of `put`s. -/
def putAll : List Bytes → WriteCursor → Checked WriteCursor
  | [], cur => pure cur
  | bs :: rest, cur => do
      let cur ← put bs cur
      putAll rest cur

theorem put_append {pre suf bs : Bytes} (h : bs.length ≤ suf.length) :
    put bs (pre ++ suf, pre.length) =
      .ok ((pre ++ bs) ++ suf.drop bs.length, (pre ++ bs).length) := by
  simp [put, writeAt_append h]

theorem put_fits {pre suf bs : Bytes} {cur : WriteCursor}
    (h : put bs (pre ++ suf, pre.length) = .ok cur) : bs.length ≤ suf.length := by
  rcases Checked.bind_eq_ok.1 h with ⟨mem, hmem, -⟩
  unfold writeAt at hmem
  split at hmem
  · rename_i hfit
    simp only [List.length_append] at hfit
    omega
  · cases hmem

/-- Writing chunks behind a prefix leaves their concatenation behind it. -/
theorem putAll_append {chunks : List Bytes} {pre suf : Bytes}
    (h : chunks.flatten.length ≤ suf.length) :
    putAll chunks (pre ++ suf, pre.length) =
      .ok ((pre ++ chunks.flatten) ++ suf.drop chunks.flatten.length,
        (pre ++ chunks.flatten).length) := by
  induction chunks generalizing pre suf with
  | nil => simp [putAll]
  | cons bs rest ih =>
      simp only [List.flatten_cons, List.length_append] at h
      have hrest : rest.flatten.length ≤ (suf.drop bs.length).length := by
        simp only [List.length_drop]
        omega
      -- After the first chunk the prefix is `pre ++ bs`, and the induction hypothesis takes over.
      simp only [putAll, put_append (show bs.length ≤ suf.length by omega), Checked.ok_bind,
        ih hrest]
      simp [List.drop_drop]

/-- Chunks that fill a block exactly replace its contents. -/
theorem putAll_fill {chunks : List Bytes} {mem : Bytes} (h : chunks.flatten.length = mem.length) :
    putAll chunks (mem, 0) = .ok (chunks.flatten, chunks.flatten.length) := by
  -- The block is an empty prefix in front of room that the chunks use up.
  have hput : putAll chunks ([] ++ mem, 0) =
      .ok (([] ++ chunks.flatten) ++ mem.drop chunks.flatten.length,
        ([] ++ chunks.flatten).length) := putAll_append (Nat.le_of_eq h)
  rw [h, List.drop_length, List.append_nil] at hput
  rw [h]
  exact hput.trans (by rw [List.nil_append, h])

/-- Chunks that were all written did fit. -/
theorem putAll_fits {chunks : List Bytes} {pre suf : Bytes} {cur : WriteCursor}
    (h : putAll chunks (pre ++ suf, pre.length) = .ok cur) :
    chunks.flatten.length ≤ suf.length := by
  induction chunks generalizing pre suf with
  | nil => simp
  | cons bs rest ih =>
      rcases Checked.bind_eq_ok.1 h with ⟨next, hput, hrest⟩
      have hfit : bs.length ≤ suf.length := put_fits hput
      -- The cursor after the first write has the form the induction hypothesis needs.
      rw [put_append hfit] at hput
      cases hput
      have := ih hrest
      simp only [List.length_drop] at this
      simp only [List.flatten_cons, List.length_append]
      omega

theorem putAll_concat (first second : List Bytes) (cur : WriteCursor) :
    putAll (first ++ second) cur = putAll first cur >>= putAll second := by
  induction first generalizing cur with
  | nil => rfl
  | cons bs rest ih =>
      cases hput : put bs cur with
      | error e => simp [putAll, hput]
      | ok next => simp [putAll, hput, ih]

/-- A counted loop that writes one item in every round; the second number is the loop variable. -/
def putLoop (item : Nat → Checked Bytes) : Nat → Nat → WriteCursor → Checked WriteCursor
  | 0, _, cur => pure cur
  | n + 1, i, cur => do
      let bs ← item i
      let cur ← put bs cur
      putLoop item n (i + 1) cur

/-- A write loop over items that all exist writes them one after the other. -/
theorem putLoop_eq_putAll {item : Nat → Checked Bytes} {chunks : List Bytes} {i : Nat}
    (h : ∀ (j : Nat) (bs : Bytes), chunks[j]? = some bs → item (i + j) = .ok bs)
    (cur : WriteCursor) : putLoop item chunks.length i cur = putAll chunks cur := by
  induction chunks generalizing i cur with
  | nil => rfl
  | cons bs rest ih =>
      have hfirst : item i = .ok bs := h 0 bs rfl
      -- The loop variable has advanced by one, the chunk index with it.
      have hrest (next : WriteCursor) :
          putLoop item rest.length (i + 1) next = putAll rest next := by
        refine ih (fun j bs hbs => ?_) next
        rw [Nat.add_right_comm, Nat.add_assoc]
        exact h (j + 1) bs hbs
      simp only [List.length_cons, putLoop, putAll, hfirst, Checked.ok_bind, hrest]

/-! ## Vectors -/

/-- `std::vector::operator[]`, undefined outside the vector. -/
def elementAt {α : Type u} (xs : List α) (i : Int) : Checked α :=
  if 0 ≤ i then
    match xs[i.toNat]? with
    | some x => .ok x
    | none => .error .outOfBounds
  else
    .error .outOfBounds

theorem elementAt_eq_ok {α : Type u} {xs : List α} {i : Nat} {x : α} :
    elementAt xs (i : Int) = .ok x ↔ xs[i]? = some x := by
  rw [elementAt, if_pos (Int.natCast_nonneg i), Int.toNat_natCast]
  cases xs[i]? with
  | none => simp
  | some y => simp

/-- An element that was read stands in the vector. -/
theorem elementAt_inv {α : Type u} {xs : List α} {i : Int} {x : α} (h : elementAt xs i = .ok x) :
    ∃ n : Nat, i = n ∧ xs[n]? = some x := by
  by_cases h0 : 0 ≤ i
  · rcases Int.eq_ofNat_of_zero_le h0 with ⟨n, rfl⟩
    exact ⟨n, rfl, elementAt_eq_ok.1 h⟩
  · rw [elementAt, if_neg h0] at h
    cases h

theorem elementAt_ok {α : Type u} {xs : List α} {i : Int} (h0 : 0 ≤ i) (hi : i < xs.length) :
    ∃ x, elementAt xs i = .ok x := by
  rcases Int.eq_ofNat_of_zero_le h0 with ⟨n, rfl⟩
  have hn : n < xs.length := Int.ofNat_lt.1 hi
  exact ⟨xs[n], elementAt_eq_ok.2 (List.getElem?_eq_getElem hn)⟩

theorem elementAt_fault {α : Type u} {xs : List α} {i : Int} {fault : Fault}
    (h : elementAt xs i = .error fault) : fault = .outOfBounds := by
  unfold elementAt at h
  split at h
  · split at h
    · cases h
    · exact (Except.error.inj h).symm
  · exact (Except.error.inj h).symm

/-- `xs[i] = a`, undefined outside the block. -/
def assignAt {α : Type u} (xs : List α) (i : Int) (a : α) : Checked (List α) :=
  if 0 ≤ i ∧ i < xs.length then .ok (xs.set i.toNat a) else .error .outOfBounds

theorem assignAt_ok {α : Type u} {xs : List α} {i : Nat} (h : i < xs.length) (a : α) :
    assignAt xs (i : Int) a = .ok (xs.set i a) :=
  if_pos ⟨Int.natCast_nonneg i, Int.ofNat_lt.2 h⟩

theorem assignAt_inv {α : Type u} {xs ys : List α} {i : Int} {a : α}
    (h : assignAt xs i a = .ok ys) : ∃ n : Nat, i = n ∧ n < xs.length ∧ ys = xs.set n a := by
  by_cases hin : 0 ≤ i ∧ i < xs.length
  · rw [assignAt, if_pos hin] at h
    exact ⟨i.toNat, by omega, by omega, (Except.ok.inj h).symm⟩
  · rw [assignAt, if_neg hin] at h
    cases h

/-- Writing the first `n` elements of a vector in a counted loop. -/
theorem putLoop_elementAt {α : Type} {xs : List α} {n : Nat} (hn : n ≤ xs.length)
    (f : α → Bytes) (cur : WriteCursor) :
    putLoop (fun i => do
      let x ← elementAt xs i
      return f x) n 0 cur = putAll ((xs.take n).map f) cur := by
  have hlen : ((xs.take n).map f).length = n := by
    rw [List.length_map, List.length_take, Nat.min_eq_left hn]
  let item (i : Nat) : Checked Bytes := do
    let x ← elementAt xs i
    return f x
  have hitem (j : Nat) (bs : Bytes) (hbs : ((xs.take n).map f)[j]? = some bs) :
      item (0 + j) = .ok bs := by
    rw [List.getElem?_map, Option.map_eq_some_iff] at hbs
    rcases hbs with ⟨x, hx, rfl⟩
    have hget : xs[j]? = some x := by
      rw [List.getElem?_take] at hx
      split at hx
      · exact hx
      · cases hx
    simp only [item, Nat.zero_add, elementAt_eq_ok.2 hget, Checked.ok_bind, Checked.pure_eq_ok]
  have hloop : putLoop item ((xs.take n).map f).length 0 cur = putAll ((xs.take n).map f) cur :=
    putLoop_eq_putAll hitem cur
  rwa [hlen] at hloop

/-- `std::vector::resize(n, fill)`, where a negative `n` has become a huge `size_t`. -/
def resize {α : Type u} (xs : List α) (n : Int) (fill : α) : Checked (List α) :=
  if 0 ≤ n then
    .ok (xs.take n.toNat ++ List.replicate (n.toNat - xs.length) fill)
  else
    .error .lengthError

theorem length_of_resize {α : Type u} {xs ys : List α} {n : Int} {fill : α}
    (h : resize xs n fill = .ok ys) : ys.length = n.toNat := by
  unfold resize at h
  split at h
  · cases h
    simp only [List.length_append, List.length_take, List.length_replicate]
    omega
  · cases h

theorem resize_ok {α : Type u} (xs : List α) {n : Int} (hn : 0 ≤ n) (fill : α) :
    ∃ ys, resize xs n fill = .ok ys ∧ ys.length = n.toNat := by
  have h : resize xs n fill = .ok (xs.take n.toNat ++ List.replicate (n.toNat - xs.length) fill) :=
    if_pos hn
  exact ⟨_, h, length_of_resize h⟩

end Cxx
