import Septem.Library.Checked

/-!
# TriviallyCopyable — object representations as byte strings

`memcpy` between a buffer and an object moves the object's representation.  For a trivially
copyable type of fixed size that representation is a byte string of length `sizeof`, and copying
it back gives the object again.  `TriviallyCopyable` states exactly this, and `Unpadded` adds the
converse: every byte string of that length is the representation of some object.

Scalars are little-endian; structs are packed (no padding between members), so a struct is
represented like the tuple of its members.
-/

namespace Cxx

universe u v

/-- Types that are copied by copying `sizeof` bytes. -/
class TriviallyCopyable (α : Type u) where
  size : Nat
  toBytes : α → Bytes
  ofBytes : Bytes → α
  length_toBytes : ∀ a : α, (toBytes a).length = size
  ofBytes_toBytes : ∀ a : α, ofBytes (toBytes a) = a

export TriviallyCopyable (toBytes ofBytes length_toBytes ofBytes_toBytes)

attribute [simp] TriviallyCopyable.length_toBytes TriviallyCopyable.ofBytes_toBytes

/-- The number of bytes of an object of type `α`. -/
abbrev sizeof (α : Type u) [TriviallyCopyable α] : Nat := TriviallyCopyable.size α

/-- Every byte string of the right length represents an object. -/
class Unpadded (α : Type u) [TriviallyCopyable α] : Prop where
  toBytes_ofBytes : ∀ bs : Bytes, bs.length = sizeof α → toBytes (ofBytes bs : α) = bs

/-! ## Little-endian naturals -/

/-- The `w` little-endian bytes of `n`. -/
def toLE : Nat → Nat → Bytes
  | 0, _ => []
  | w + 1, n => UInt8.ofNat n :: toLE w (n / 256)

/-- The natural number with the given little-endian bytes. -/
def ofLE : Bytes → Nat
  | [] => 0
  | b :: bs => b.toNat + 256 * ofLE bs

@[simp] theorem length_toLE (w n : Nat) : (toLE w n).length = w := by
  induction w generalizing n with
  | zero => rfl
  | succ w ih => simp [toLE, ih]

theorem ofLE_toLE {w n : Nat} (h : n < 256 ^ w) : ofLE (toLE w n) = n := by
  induction w generalizing n with
  | zero =>
      have hn : n = 0 := Nat.lt_one_iff.1 h
      simp [toLE, ofLE, hn]
  | succ w ih =>
      have hdiv : n / 256 < 256 ^ w := by
        rw [Nat.pow_succ] at h
        exact Nat.div_lt_of_lt_mul (by omega)
      have hbyte : (UInt8.ofNat n).toNat = n % 256 := by simp
      simp only [toLE, ofLE, hbyte, ih hdiv]
      omega

theorem ofLE_lt (bs : Bytes) : ofLE bs < 256 ^ bs.length := by
  induction bs with
  | nil => simp [ofLE]
  | cons b bs ih =>
      have hb : b.toNat < 256 := b.toNat_lt
      simp only [ofLE, List.length_cons, Nat.pow_succ]
      omega

theorem ofLE_lt_of_length {bs : Bytes} {w : Nat} (h : bs.length = w) : ofLE bs < 256 ^ w :=
  h ▸ ofLE_lt bs

theorem toLE_ofLE (bs : Bytes) : toLE bs.length (ofLE bs) = bs := by
  induction bs with
  | nil => rfl
  | cons b bs ih =>
      have hb : b.toNat < 256 := b.toNat_lt
      have hmod : (b.toNat + 256 * ofLE bs) % 256 = b.toNat := by omega
      have hdiv : (b.toNat + 256 * ofLE bs) / 256 = ofLE bs := by omega
      have hbyte : UInt8.ofNat (b.toNat + 256 * ofLE bs) = b := by
        apply UInt8.toNat_inj.1
        rw [UInt8.toNat_ofNat']
        exact hmod
      simp only [List.length_cons, toLE, ofLE, hbyte, hdiv, ih]

theorem toLE_ofLE_of_length {bs : Bytes} {w : Nat} (h : bs.length = w) : toLE w (ofLE bs) = bs :=
  h ▸ toLE_ofLE bs

/-- One more byte is the most significant one. -/
theorem ofLE_concat (bs : Bytes) (b : UInt8) :
    ofLE (bs ++ [b]) = ofLE bs + b.toNat * 256 ^ bs.length := by
  induction bs with
  | nil => simp [ofLE]
  | cons c bs ih =>
      rw [List.cons_append, ofLE, ih, ofLE, List.length_cons, Nat.pow_succ', Nat.mul_add,
        Nat.mul_left_comm, Nat.add_assoc]

/-! ## Scalars -/

instance : TriviallyCopyable UInt8 where
  size := 1
  toBytes x := [x]
  ofBytes bs := bs.headD 0
  length_toBytes _ := rfl
  ofBytes_toBytes _ := rfl

instance : Unpadded UInt8 where
  toBytes_ofBytes bs h := by
    obtain ⟨b, rfl⟩ := List.length_eq_one_iff.1 h
    rfl

/-- A `bool` is the byte `0` or `1`; loading any other one is undefined, and gives `true` here. -/
instance : TriviallyCopyable Bool where
  size := 1
  toBytes x := [if x then 1 else 0]
  ofBytes bs := bs.headD 0 != 0
  length_toBytes _ := rfl
  ofBytes_toBytes x := by cases x <;> rfl

instance : TriviallyCopyable UInt16 where
  size := 2
  toBytes x := toLE 2 x.toNat
  ofBytes bs := UInt16.ofNat (ofLE bs)
  length_toBytes x := length_toLE 2 x.toNat
  ofBytes_toBytes x := by
    have hx : x.toNat < 256 ^ 2 := x.toNat_lt
    rw [ofLE_toLE hx, UInt16.ofNat_toNat]

instance : Unpadded UInt16 where
  toBytes_ofBytes bs h := by
    have hback : (UInt16.ofNat (ofLE bs)).toNat = ofLE bs :=
      UInt16.toNat_ofNat_of_lt' (ofLE_lt_of_length h)
    change toLE 2 (UInt16.ofNat (ofLE bs)).toNat = bs
    rw [hback]
    exact toLE_ofLE_of_length h

instance : TriviallyCopyable UInt32 where
  size := 4
  toBytes x := toLE 4 x.toNat
  ofBytes bs := UInt32.ofNat (ofLE bs)
  length_toBytes x := length_toLE 4 x.toNat
  ofBytes_toBytes x := by
    have hx : x.toNat < 256 ^ 4 := x.toNat_lt
    rw [ofLE_toLE hx, UInt32.ofNat_toNat]

instance : Unpadded UInt32 where
  toBytes_ofBytes bs h := by
    have hback : (UInt32.ofNat (ofLE bs)).toNat = ofLE bs :=
      UInt32.toNat_ofNat_of_lt' (ofLE_lt_of_length h)
    change toLE 4 (UInt32.ofNat (ofLE bs)).toNat = bs
    rw [hback]
    exact toLE_ofLE_of_length h

instance : TriviallyCopyable UInt64 where
  size := 8
  toBytes x := toLE 8 x.toNat
  ofBytes bs := UInt64.ofNat (ofLE bs)
  length_toBytes x := length_toLE 8 x.toNat
  ofBytes_toBytes x := by
    have hx : x.toNat < 256 ^ 8 := x.toNat_lt
    rw [ofLE_toLE hx, UInt64.ofNat_toNat]

instance : Unpadded UInt64 where
  toBytes_ofBytes bs h := by
    have hback : (UInt64.ofNat (ofLE bs)).toNat = ofLE bs :=
      UInt64.toNat_ofNat_of_lt' (ofLE_lt_of_length h)
    change toLE 8 (UInt64.ofNat (ofLE bs)).toNat = bs
    rw [hback]
    exact toLE_ofLE_of_length h

/-! ## Structs -/

section Structs

variable {α : Type u} {β : Type v} [TriviallyCopyable α] [TriviallyCopyable β]

/-- Two members, packed one after the other. -/
instance : TriviallyCopyable (α × β) where
  size := sizeof α + sizeof β
  toBytes p := toBytes p.1 ++ toBytes p.2
  ofBytes bs := (ofBytes (bs.take (sizeof α)), ofBytes (bs.drop (sizeof α)))
  length_toBytes p := by simp
  ofBytes_toBytes p := by
    have hlen : (toBytes p.1).length = sizeof α := length_toBytes p.1
    -- The first member ends where the second begins.
    have htake : (toBytes p.1 ++ toBytes p.2).take (sizeof α) = toBytes p.1 := by
      rw [← hlen, List.take_left]
    have hdrop : (toBytes p.1 ++ toBytes p.2).drop (sizeof α) = toBytes p.2 := by
      rw [← hlen, List.drop_left]
    rw [htake, hdrop, ofBytes_toBytes, ofBytes_toBytes]

instance [Unpadded α] [Unpadded β] : Unpadded (α × β) where
  toBytes_ofBytes bs h := by
    have hsize : bs.length = sizeof α + sizeof β := h
    have hfst : toBytes (ofBytes (bs.take (sizeof α)) : α) = bs.take (sizeof α) :=
      Unpadded.toBytes_ofBytes _ (by rw [List.length_take]; omega)
    have hsnd : toBytes (ofBytes (bs.drop (sizeof α)) : β) = bs.drop (sizeof α) :=
      Unpadded.toBytes_ofBytes _ (by rw [List.length_drop]; omega)
    change toBytes (ofBytes (bs.take (sizeof α)) : α) ++
      toBytes (ofBytes (bs.drop (sizeof α)) : β) = bs
    rw [hfst, hsnd, List.take_append_drop]

/-- A type laid out like another one it is in bijection with (a struct like its members). -/
@[reducible] def TriviallyCopyable.ofEquiv (f : β → α) (g : α → β) (hgf : ∀ b, g (f b) = b) :
    TriviallyCopyable β where
  size := sizeof α
  toBytes b := toBytes (f b)
  ofBytes bs := g (ofBytes bs)
  length_toBytes b := length_toBytes (f b)
  ofBytes_toBytes b := by rw [ofBytes_toBytes, hgf]

end Structs

/-- A signed 32-bit integer is represented like the unsigned one with the same bits. -/
instance : TriviallyCopyable Int32 :=
  TriviallyCopyable.ofEquiv Int32.toUInt32 UInt32.toInt32 Int32.toInt32_toUInt32

instance : Unpadded Int32 where
  toBytes_ofBytes bs h := by
    change toBytes (ofBytes bs : UInt32).toInt32.toUInt32 = bs
    rw [UInt32.toUInt32_toInt32]
    exact Unpadded.toBytes_ofBytes bs h

/-- A `float`, by the 32 bits that represent it. -/
structure Single where
  bits : UInt32
  deriving DecidableEq, Repr

instance : TriviallyCopyable Single :=
  TriviallyCopyable.ofEquiv Single.bits Single.mk (fun _ => rfl)

instance : Unpadded Single where
  toBytes_ofBytes bs h :=
    show toBytes (ofBytes bs : UInt32) = bs from Unpadded.toBytes_ofBytes bs h

/-! ## Unique reading -/

section Injectivity

variable {α : Type u} [TriviallyCopyable α]

/-- Two objects in front of two byte strings are told apart by the bytes. -/
theorem toBytes_append_inj {a b : α} {rest rest' : Bytes}
    (h : toBytes a ++ rest = toBytes b ++ rest') : a = b ∧ rest = rest' := by
  have hlen : (toBytes a).length = (toBytes b).length := by
    rw [length_toBytes, length_toBytes]
  rcases List.append_inj h hlen with ⟨hbytes, hrest⟩
  refine ⟨?_, hrest⟩
  calc
    a = ofBytes (toBytes a) := (ofBytes_toBytes a).symm
    _ = ofBytes (toBytes b) := by rw [hbytes]
    _ = b := ofBytes_toBytes b

/-- So are two arrays of the same length. -/
theorem flatMap_toBytes_append_inj {xs ys : List α} (hlen : xs.length = ys.length)
    {rest rest' : Bytes} (h : xs.flatMap toBytes ++ rest = ys.flatMap toBytes ++ rest') :
    xs = ys ∧ rest = rest' := by
  induction xs generalizing ys with
  | nil =>
      cases ys with
      | nil => exact ⟨rfl, h⟩
      | cons y ys => cases hlen
  | cons x xs ih =>
      cases ys with
      | nil => cases hlen
      | cons y ys =>
          simp only [List.flatMap_cons, List.append_assoc] at h
          rcases toBytes_append_inj h with ⟨rfl, htail⟩
          rcases ih (Nat.succ.inj hlen) htail with ⟨rfl, hrest⟩
          exact ⟨rfl, hrest⟩

theorem length_flatMap_toBytes (xs : List α) :
    (xs.flatMap toBytes).length = xs.length * sizeof α := by
  induction xs with
  | nil => simp
  | cons x xs ih =>
      rw [List.flatMap_cons, List.length_append, length_toBytes, ih, List.length_cons,
        Nat.add_one_mul, Nat.add_comm]

end Injectivity

/-! ## Reading objects out of a block -/

section Reading

variable {α : Type u} [TriviallyCopyable α] {σ : Type u}

/-- A block being read front to back, and the index of the next read. -/
abbrev ReadCursor : Type := Bytes × Nat

/-- `memcpy(&value, buffer + index, sizeof(value)); index += sizeof(value);` -/
def fetch (α : Type) [TriviallyCopyable α] (cur : ReadCursor) : Checked (α × ReadCursor) := do
  let rest ← offset cur.1 cur.2
  let raw ← memcpyFrom rest (sizeof α)
  return (ofBytes raw.1, (cur.1, cur.2 + sizeof α))

/-- A counted loop that reads one object and works on it in every round. -/
def fetchLoop {α σ : Type} [TriviallyCopyable α] (body : σ → α → Checked σ) :
    Nat → σ → ReadCursor → Checked (σ × ReadCursor)
  | 0, s, cur => pure (s, cur)
  | n + 1, s, cur => do
      let (a, cur) ← fetch α cur
      let s ← body s a
      fetchLoop body n s cur

/-- The objects that a counted loop reads. -/
def fetchList (α : Type) [TriviallyCopyable α] :
    Nat → ReadCursor → Checked (List α × ReadCursor)
  | 0, cur => pure ([], cur)
  | n + 1, cur => do
      let (a, cur) ← fetch α cur
      let (rest, cur) ← fetchList α n cur
      return (a :: rest, cur)

end Reading

section ReadingLemmas

variable {α σ : Type} [TriviallyCopyable α]

theorem fetch_ok {mem : Bytes} {i : Nat} (h : i + sizeof α ≤ mem.length) :
    fetch α (mem, i) = .ok (ofBytes (slice mem i (sizeof α)), (mem, i + sizeof α)) := by
  have hfit : sizeof α ≤ (mem.drop i).length := by
    rw [List.length_drop]
    omega
  simp only [fetch, offset_ok (show i ≤ mem.length by omega), memcpyFrom_ok hfit,
    Checked.ok_bind, Checked.pure_eq_ok, slice]

/-- A read that reaches behind the block faults. -/
theorem fetch_short {mem : Bytes} {i : Nat} (h : mem.length < i + sizeof α) :
    fetch α (mem, i) = .error .outOfBounds := by
  by_cases hi : i ≤ mem.length
  · have hfit : ¬ sizeof α ≤ (mem.drop i).length := by
      rw [List.length_drop]
      omega
    simp only [fetch, offset_ok hi, Checked.ok_bind, memcpyFrom, dif_neg hfit,
      Checked.error_bind]
  · have hoff : ¬ ((0 : Int) ≤ i ∧ (i : Int) ≤ mem.length) := by omega
    simp only [fetch, offset, if_neg hoff, Checked.error_bind]

/-- A read loop inside the block returns if its body does, and keeps what its body keeps. -/
theorem fetchLoop_keeps {body : σ → α → Checked σ} {Inv : σ → Prop}
    (hbody : ∀ s a, Inv s → ∃ s', body s a = .ok s' ∧ Inv s') {n : Nat} {s : σ} (hs : Inv s)
    {mem : Bytes} {i : Nat} (h : i + n * sizeof α ≤ mem.length) :
    ∃ s', fetchLoop body n s (mem, i) = .ok (s', (mem, i + n * sizeof α)) ∧ Inv s' := by
  induction n generalizing s i with
  | zero => exact ⟨s, by simp [fetchLoop], hs⟩
  | succ n ih =>
      rw [Nat.add_one_mul] at h ⊢
      rcases hbody s (ofBytes (slice mem i (sizeof α))) hs with ⟨t, ht, hinv⟩
      rcases ih hinv (i := i + sizeof α) (by omega) with ⟨s', hs', hinv'⟩
      refine ⟨s', ?_, hinv'⟩
      simp only [fetchLoop, fetch_ok (show i + sizeof α ≤ mem.length by omega), Checked.ok_bind,
        ht, hs']
      rw [Nat.add_assoc, Nat.add_comm (sizeof α)]

/-- A read loop that returns has kept what its body keeps. -/
theorem inv_of_fetchLoop {body : σ → α → Checked σ} {Inv : σ → Prop}
    (hbody : ∀ s a s', Inv s → body s a = .ok s' → Inv s') {n : Nat} {s s' : σ} (hs : Inv s)
    {cur cur' : ReadCursor} (h : fetchLoop body n s cur = .ok (s', cur')) : Inv s' := by
  induction n generalizing s cur with
  | zero =>
      cases h
      exact hs
  | succ n ih =>
      rcases Checked.bind_eq_ok.1 h with ⟨⟨a, cur₁⟩, -, hrest⟩
      rcases Checked.bind_eq_ok.1 hrest with ⟨t, ht, hloop⟩
      exact ih (hbody s a t hs ht) hloop

/-- If another body follows every round that returns, the loop with it follows the loop. -/
theorem fetchLoop_follows {τ : Type} {body : σ → α → Checked σ} {body' : τ → α → Checked τ}
    {f : σ → τ} (hbody : ∀ s a s', body s a = .ok s' → body' (f s) a = .ok (f s')) {n : Nat}
    {s s' : σ} {cur cur' : ReadCursor} (h : fetchLoop body n s cur = .ok (s', cur')) :
    fetchLoop body' n (f s) cur = .ok (f s', cur') := by
  induction n generalizing s cur with
  | zero =>
      cases h
      rfl
  | succ n ih =>
      rcases Checked.bind_eq_ok.1 h with ⟨⟨a, cur₁⟩, hfetch, hrest⟩
      rcases Checked.bind_eq_ok.1 hrest with ⟨t, ht, hloop⟩
      simp only [fetchLoop, hfetch, Checked.ok_bind, hbody s a t ht]
      exact ih hloop

theorem fetchLoop_ok {body : σ → α → Checked σ} (hbody : ∀ s a, ∃ s', body s a = .ok s')
    {n : Nat} (s : σ) {mem : Bytes} {i : Nat} (h : i + n * sizeof α ≤ mem.length) :
    ∃ s', fetchLoop body n s (mem, i) = .ok (s', (mem, i + n * sizeof α)) := by
  have hkeep (s : σ) (a : α) (_ : True) : ∃ s', body s a = .ok s' ∧ True := by
    rcases hbody s a with ⟨s', hs'⟩
    exact ⟨s', hs', trivial⟩
  rcases fetchLoop_keeps hkeep trivial h with ⟨s', hs', -⟩
  exact ⟨s', hs'⟩

/-- A read loop that reaches behind the block faults there if its body does not fault before. -/
theorem fetchLoop_short {body : σ → α → Checked σ} (hbody : ∀ s a, ∃ s', body s a = .ok s')
    {n : Nat} {s : σ} {mem : Bytes} {i : Nat} (hi : i ≤ mem.length)
    (h : mem.length < i + n * sizeof α) :
    fetchLoop body n s (mem, i) = .error .outOfBounds := by
  induction n generalizing s i with
  | zero => omega
  | succ n ih =>
      rw [Nat.add_one_mul] at h
      by_cases hfit : i + sizeof α ≤ mem.length
      · rcases hbody s (ofBytes (slice mem i (sizeof α))) with ⟨t, ht⟩
        simp only [fetchLoop, fetch_ok hfit, Checked.ok_bind, ht, ih hfit (by omega)]
      · simp only [fetchLoop, fetch_short (Nat.not_le.1 hfit), Checked.error_bind]

theorem fetch_mem {cur cur' : ReadCursor} {a : α} (h : fetch α cur = .ok (a, cur')) :
    cur'.1 = cur.1 := by
  rcases Checked.bind_eq_ok.1 h with ⟨rest, -, hread⟩
  rcases Checked.bind_eq_ok.1 hread with ⟨raw, -, hret⟩
  cases hret
  rfl

/-- What a read returned does not depend on the bytes behind the block. -/
theorem fetch_extend {mem : Bytes} (suf : Bytes) {i j : Nat} {a : α}
    (h : fetch α (mem, i) = .ok (a, (mem, j))) :
    fetch α (mem ++ suf, i) = .ok (a, (mem ++ suf, j)) := by
  have hfit : i + sizeof α ≤ mem.length := by
    by_contra hshort
    rw [fetch_short (Nat.not_le.1 hshort)] at h
    cases h
  have hfit' : i + sizeof α ≤ (mem ++ suf).length := by
    rw [List.length_append]
    omega
  rw [fetch_ok hfit] at h
  cases h
  rw [fetch_ok hfit', slice_append_left suf hfit]

theorem fetchLoop_extend {body : σ → α → Checked σ} {mem : Bytes} (suf : Bytes) {n i j : Nat}
    {s s' : σ} (h : fetchLoop body n s (mem, i) = .ok (s', (mem, j))) :
    fetchLoop body n s (mem ++ suf, i) = .ok (s', (mem ++ suf, j)) := by
  induction n generalizing s i with
  | zero =>
      cases h
      rfl
  | succ n ih =>
      rcases Checked.bind_eq_ok.1 h with ⟨⟨a, mem', k⟩, hfetch, hrest⟩
      rcases Checked.bind_eq_ok.1 hrest with ⟨t, hbody, hloop⟩
      -- A read leaves the block of the cursor alone.
      have hmem : mem' = mem := fetch_mem hfetch
      subst hmem
      simp only [fetchLoop, fetch_extend suf hfetch, Checked.ok_bind, hbody]
      exact ih hloop

theorem fetch_append (pre suf : Bytes) (a : α) :
    fetch α (pre ++ (toBytes a ++ suf), pre.length) =
      .ok (a, (pre ++ (toBytes a ++ suf), pre.length + sizeof α)) := by
  have hoff : offset (pre ++ (toBytes a ++ suf)) (pre.length : Int) = .ok (toBytes a ++ suf) := by
    rw [offset_ok (by simp), List.drop_left]
  have hlen : (toBytes a).length = sizeof α := length_toBytes a
  have hfit : sizeof α ≤ (toBytes a ++ suf).length := by
    simp only [List.length_append]
    omega
  have htake : (toBytes a ++ suf).take (sizeof α) = toBytes a := by
    rw [← hlen, List.take_left]
  simp [fetch, hoff, memcpyFrom_ok hfit, htake]

/-- A read loop over the representations of `xs` runs its body over `xs`. -/
theorem fetchLoop_append (body : σ → α → Checked σ) (xs : List α) (s : σ) (pre suf : Bytes) :
    fetchLoop body xs.length s (pre ++ (xs.flatMap toBytes ++ suf), pre.length) =
      (do
        let s' ← xs.foldlM body s
        return (s', (pre ++ (xs.flatMap toBytes ++ suf),
          pre.length + (xs.flatMap toBytes).length))) := by
  induction xs generalizing s pre with
  | nil => simp [fetchLoop]
  | cons a rest ih =>
      have hmem : pre ++ ((a :: rest).flatMap toBytes ++ suf) =
          pre ++ (toBytes a ++ (rest.flatMap toBytes ++ suf)) := by
        simp
      -- One object read: its bytes now belong to the prefix.
      have hshift : pre ++ (toBytes a ++ (rest.flatMap toBytes ++ suf)) =
          (pre ++ toBytes a) ++ (rest.flatMap toBytes ++ suf) := by
        simp
      simp only [List.length_cons, fetchLoop, hmem, fetch_append, Checked.ok_bind,
        List.foldlM_cons]
      cases hbody : body s a with
      | error e => rfl
      | ok s' =>
          have hidx : pre.length + sizeof α = (pre ++ toBytes a).length := by
            simp
          simp only [Checked.ok_bind]
          rw [hidx, hshift, ih s' (pre ++ toBytes a)]
          simp [Nat.add_assoc]

/-- The cursor stands in front of the bytes `suf`, which end the block. -/
def Before (cur : ReadCursor) (suf : Bytes) : Prop :=
  ∃ pre : Bytes, cur = (pre ++ suf, pre.length)

/-- Reading the value the cursor stands in front of moves the cursor behind it. -/
theorem fetch_before {cur : ReadCursor} {suf : Bytes} {a : α} (h : Before cur (toBytes a ++ suf)) :
    ∃ cur', fetch α cur = .ok (a, cur') ∧ Before cur' suf := by
  rcases h with ⟨pre, rfl⟩
  refine ⟨_, fetch_append pre suf a, pre ++ toBytes a, ?_⟩
  rw [List.append_assoc, List.length_append, length_toBytes]

/-- A read loop over the values the cursor stands in front of moves it behind them. -/
theorem fetchLoop_before {cur : ReadCursor} {suf : Bytes} {xs : List α} {n : Nat}
    (h : Before cur (xs.flatMap toBytes ++ suf)) (hn : xs.length = n) :
    ∃ cur', Before cur' suf ∧ ∀ (body : σ → α → Checked σ) (s : σ),
      fetchLoop body n s cur = (do
        let s' ← xs.foldlM body s
        return (s', cur')) := by
  rcases h with ⟨pre, rfl⟩
  refine ⟨(pre ++ (xs.flatMap toBytes ++ suf), pre.length + (xs.flatMap toBytes).length),
    ⟨pre ++ xs.flatMap toBytes, ?_⟩, ?_⟩
  · rw [List.append_assoc, List.length_append]
  · intro body s
    rw [← hn, fetchLoop_append]

/-! A loop whose body cannot fault may read everything first. -/

theorem fetchLoop_pure (f : σ → α → σ) (n : Nat) (s : σ) (cur : ReadCursor) :
    fetchLoop (fun s a => pure (f s a)) n s cur =
      fetchList α n cur >>= fun read => pure (read.1.foldl f s, read.2) := by
  induction n generalizing s cur with
  | zero => rfl
  | succ n ih =>
      cases hfetch : fetch α cur with
      | error fault => simp only [fetchLoop, fetchList, hfetch, Checked.error_bind]
      | ok r =>
          simp only [fetchLoop, fetchList, hfetch, Checked.ok_bind, pure_bind, ih, bind_assoc,
            List.foldl_cons]

theorem length_of_fetchList {n : Nat} {cur cur' : ReadCursor} {xs : List α}
    (h : fetchList α n cur = .ok (xs, cur')) : xs.length = n := by
  induction n generalizing cur xs with
  | zero =>
      cases h
      rfl
  | succ n ih =>
      rcases Checked.bind_eq_ok.1 h with ⟨⟨a, cur₁⟩, -, hrest⟩
      rcases Checked.bind_eq_ok.1 hrest with ⟨⟨rest, cur₂⟩, hlist, hret⟩
      cases hret
      rw [List.length_cons, ih hlist]

theorem fetch_inv {mem : Bytes} {i : Nat} {a : α} {cur : ReadCursor}
    (h : fetch α (mem, i) = .ok (a, cur)) :
    a = ofBytes (slice mem i (sizeof α)) ∧ cur = (mem, i + sizeof α) := by
  have hfit : i + sizeof α ≤ mem.length := by
    by_contra hshort
    rw [fetch_short (Nat.not_le.1 hshort)] at h
    cases h
  rw [fetch_ok hfit] at h
  cases h
  exact ⟨rfl, rfl⟩

/-- The loop ends behind what it has read. -/
theorem fetchList_inv {n : Nat} {mem : Bytes} {i : Nat} {xs : List α} {cur : ReadCursor}
    (h : fetchList α n (mem, i) = .ok (xs, cur)) : cur = (mem, i + n * sizeof α) := by
  induction n generalizing i xs with
  | zero =>
      cases h
      rw [Nat.zero_mul, Nat.add_zero]
  | succ n ih =>
      rcases Checked.bind_eq_ok.1 h with ⟨⟨a, cur₁⟩, hfetch, hrest⟩
      rcases Checked.bind_eq_ok.1 hrest with ⟨⟨rest, cur₂⟩, hlist, hret⟩
      cases hret
      rcases fetch_inv hfetch with ⟨-, rfl⟩
      rw [ih hlist, Nat.add_one_mul, Nat.add_assoc, Nat.add_comm (sizeof α)]

omit [TriviallyCopyable α] in
/-- A loop that collects what it reads. -/
theorem foldlM_collect (xs ys : List α) :
    xs.foldlM (fun collected x => (pure (collected ++ [x]) : Checked (List α))) ys =
      .ok (ys ++ xs) := by
  induction xs generalizing ys with
  | nil => simp
  | cons x rest ih =>
      rw [List.foldlM_cons, Checked.pure_eq_ok, Checked.ok_bind, ih]
      simp

end ReadingLemmas

end Cxx
