import Septem.Library.Checked

/-!
# XorSum — the exclusive-or of the bytes of a block

`xorSum bs` is what `ret = 0; for (...) ret ^= ptr[i];` leaves in `ret`.  It is a homomorphism
from concatenation to `^^^`, so a block of zero sum is one whose two parts have equal sums.
-/

namespace Cxx

def xorSum (bs : Bytes) : UInt8 :=
  bs.foldl (fun ret b => ret ^^^ b) 0

@[simp] theorem xorSum_nil : xorSum [] = 0 := rfl

theorem foldl_xor (bs : Bytes) (a : UInt8) :
    bs.foldl (fun ret b => ret ^^^ b) a = a ^^^ xorSum bs := by
  induction bs generalizing a with
  | nil => simp
  | cons b bs ih =>
      have hcons : xorSum (b :: bs) = 0 ^^^ b ^^^ xorSum bs := ih (0 ^^^ b)
      calc
        (b :: bs).foldl (fun ret b => ret ^^^ b) a
            = a ^^^ b ^^^ xorSum bs := ih (a ^^^ b)
        _ = a ^^^ (0 ^^^ b ^^^ xorSum bs) := by simp [UInt8.xor_assoc]
        _ = a ^^^ xorSum (b :: bs) := by rw [hcons]

@[simp] theorem xorSum_cons (b : UInt8) (bs : Bytes) : xorSum (b :: bs) = b ^^^ xorSum bs := by
  have h : xorSum (b :: bs) = 0 ^^^ b ^^^ xorSum bs := foldl_xor bs (0 ^^^ b)
  simpa using h

@[simp] theorem xorSum_append (xs ys : Bytes) : xorSum (xs ++ ys) = xorSum xs ^^^ xorSum ys := by
  induction xs with
  | nil => simp
  | cons x xs ih => simp [ih, UInt8.xor_assoc]

/-- Changing a byte changes the sum by the difference of the bytes. -/
theorem xorSum_set {bs : Bytes} {j : Nat} (hj : j < bs.length) (b : UInt8) :
    xorSum (bs.set j b) = xorSum bs ^^^ (bs[j] ^^^ b) := by
  induction bs generalizing j with
  | nil => exact absurd hj (Nat.not_lt_zero j)
  | cons x xs ih =>
      cases j with
      | zero =>
          have hcancel : b = x ^^^ (x ^^^ b) := by
            rw [← UInt8.xor_assoc, UInt8.xor_self, UInt8.zero_xor]
          simp only [List.set_cons_zero, xorSum_cons, List.getElem_cons_zero]
          calc
            b ^^^ xorSum xs
                = x ^^^ (x ^^^ b) ^^^ xorSum xs := by rw [← hcancel]
            _ = x ^^^ xorSum xs ^^^ (x ^^^ b) := by ac_rfl
      | succ j =>
          simp only [List.set_cons_succ, xorSum_cons, List.getElem_cons_succ,
            ih (Nat.lt_of_succ_lt_succ hj), UInt8.xor_assoc]

/-- The sum notices every change of a single byte. -/
theorem xorSum_set_ne {bs : Bytes} {j : Nat} (hj : j < bs.length) {b : UInt8} (hb : b ≠ bs[j]) :
    xorSum (bs.set j b) ≠ xorSum bs := by
  intro h
  have hzero : xorSum bs ^^^ (bs[j] ^^^ b) = xorSum bs ^^^ 0 := by
    rw [← xorSum_set hj, h, UInt8.xor_zero]
  exact hb (UInt8.xor_eq_zero_iff.1 ((UInt8.xor_right_inj _).1 hzero)).symm

end Cxx
