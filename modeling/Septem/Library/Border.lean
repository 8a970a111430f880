import Mathlib.Data.Set.Basic
import Mathlib.Order.Bounds.Defs
import Septem.Library.Occurrence

/-!
# Border — borders of a pattern, and what they say about its occurrences

A border of the first `i` elements of a pattern is a shorter prefix that is also a suffix of them.
Searching for the pattern in a text, and computing the failure table of the pattern, keep a
`PartialMatch`: a prefix of the pattern that ends where the reading stands.

* `PartialMatch.border` and `PartialMatch.of_border`: shorter partial matches at the same place are
  exactly the borders of the longer one;
* `StrongFail` is the entry of the optimised failure table, where a border that goes on like the
  prefix itself is passed over; `strongFail_iff` says which number that is;
* `PartialMatch.le_fail`: after a mismatch, falling back to this entry misses nothing.
-/

namespace Cxx

universe u

variable {α : Type u} {pat txt : List α} {i j k : Nat}

/-! ## Partial matches -/

/-- The first `k` elements of the pattern end the first `i` elements of the text. -/
structure PartialMatch (pat txt : List α) (i k : Nat) : Prop where
  length_le : k ≤ pat.length
  suffix : pat.take k <:+ txt.take i

theorem PartialMatch.zero (pat txt : List α) (i : Nat) : PartialMatch pat txt i 0 :=
  ⟨Nat.zero_le _, by rw [List.take_zero]; exact List.nil_suffix⟩

theorem append_singleton_suffix_iff {xs ys : List α} {a b : α} :
    xs ++ [a] <:+ ys ++ [b] ↔ a = b ∧ xs <:+ ys := by
  rw [← List.reverse_prefix, List.reverse_append, List.reverse_append, List.reverse_singleton,
    List.reverse_singleton, List.singleton_append, List.singleton_append, List.cons_prefix_cons,
    List.reverse_prefix]

theorem take_succ_eq {xs : List α} (h : i < xs.length) : xs.take (i + 1) = xs.take i ++ [xs[i]] :=
  List.take_succ_eq_append_getElem h

/-- A partial match one element further is one here that goes on like the text. -/
theorem partialMatch_succ_iff (hi : i < txt.length) :
    PartialMatch pat txt (i + 1) (k + 1) ↔
      PartialMatch pat txt i k ∧ k < pat.length ∧ pat[k]? = txt[i]? := by
  constructor
  · rintro ⟨hk, hsuf⟩
    rw [take_succ_eq hk, take_succ_eq hi, append_singleton_suffix_iff] at hsuf
    refine ⟨⟨Nat.le_of_lt hk, hsuf.2⟩, hk, ?_⟩
    rw [List.getElem?_eq_getElem hk, List.getElem?_eq_getElem hi, hsuf.1]
  · rintro ⟨hmatch, hk, heq⟩
    rw [List.getElem?_eq_getElem hk, List.getElem?_eq_getElem hi] at heq
    refine ⟨hk, ?_⟩
    rw [take_succ_eq hk, take_succ_eq hi, append_singleton_suffix_iff]
    exact ⟨Option.some.inj heq, hmatch.suffix⟩

/-! ## Borders -/

/-- The first `k` elements of the pattern are a border of its first `i`. -/
structure Border (pat : List α) (i k : Nat) : Prop extends PartialMatch pat pat i k where
  lt : k < i

theorem PartialMatch.of_border (h : PartialMatch pat txt i j) (hk : Border pat j k) :
    PartialMatch pat txt i k :=
  ⟨hk.length_le, hk.suffix.trans h.suffix⟩

/-- Of two partial matches at one place, the shorter is a border of the longer. -/
theorem PartialMatch.border (hj : PartialMatch pat txt i j) (hk : PartialMatch pat txt i k)
    (hlt : k < j) : Border pat j k := by
  refine ⟨⟨hk.length_le, ?_⟩, hlt⟩
  apply List.suffix_of_suffix_length_le hk.suffix hj.suffix
  rw [List.length_take_of_le hk.length_le, List.length_take_of_le hj.length_le]
  exact Nat.le_of_lt hlt

theorem Border.trans (hij : Border pat i j) (hjk : Border pat j k) : Border pat i k :=
  ⟨hij.toPartialMatch.of_border hjk, Nat.lt_trans hjk.lt hij.lt⟩

theorem Border.of_lt (hj : Border pat i j) (hk : Border pat i k) (hlt : k < j) : Border pat j k :=
  hj.toPartialMatch.border hk.toPartialMatch hlt

theorem border_succ_iff (hi : i < pat.length) :
    Border pat (i + 1) (k + 1) ↔ Border pat i k ∧ pat[k]? = pat[i]? := by
  constructor
  · rintro ⟨hmatch, hlt⟩
    rcases (partialMatch_succ_iff hi).1 hmatch with ⟨hmatch', -, heq⟩
    exact ⟨⟨hmatch', Nat.lt_of_succ_lt_succ hlt⟩, heq⟩
  · rintro ⟨hborder, heq⟩
    have hk : k < pat.length := Nat.lt_trans hborder.lt hi
    exact ⟨(partialMatch_succ_iff hi).2 ⟨hborder.toPartialMatch, hk, heq⟩,
      Nat.succ_lt_succ hborder.lt⟩

/-- `k` is the longest border of the first `i` elements. -/
structure LongestBorder (pat : List α) (i k : Nat) : Prop extends Border pat i k where
  max : ∀ l, Border pat i l → l ≤ k

/-! ## The failure table -/

/-- The entry `f` of the failure table at `i`: the longest border that goes on differently than the
first `i` elements do, and `-1` if there is none. -/
structure StrongFail (pat : List α) (i : Nat) (f : Int) : Prop where
  ge : -1 ≤ f
  border : ∀ k : Nat, f = k → Border pat i k ∧ pat[k]? ≠ pat[i]?
  max : ∀ k : Nat, Border pat i k → pat[k]? ≠ pat[i]? → (k : Int) ≤ f

theorem StrongFail.lt {f : Int} (h : StrongFail pat i f) : f < i := by
  by_cases hneg : f < 0
  · omega
  · have hlt := (h.border f.toNat (by omega)).1.lt
    omega

theorem strongFail_zero (pat : List α) : StrongFail pat 0 (-1) := by
  refine ⟨Int.le_refl _, fun k hk => by omega, ?_⟩
  intro k hborder
  exact absurd hborder.lt (Nat.not_lt_zero k)

/-- The longest border goes on differently: it is the entry. -/
theorem LongestBorder.strongFail (h : LongestBorder pat i k) (hne : pat[k]? ≠ pat[i]?) :
    StrongFail pat i k := by
  refine ⟨by omega, ?_, ?_⟩
  · intro l hl
    obtain rfl : k = l := by omega
    exact ⟨h.toBorder, hne⟩
  · intro l hborder _
    exact_mod_cast h.max l hborder

/-- The longest border goes on the same way: the entry is the one of this border. -/
theorem LongestBorder.strongFail_of_eq (h : LongestBorder pat i k) (heq : pat[k]? = pat[i]?)
    {f : Int} (hf : StrongFail pat k f) : StrongFail pat i f := by
  refine ⟨hf.ge, ?_, ?_⟩
  · intro l hl
    rcases hf.border l hl with ⟨hborder, hne⟩
    exact ⟨h.toBorder.trans hborder, heq ▸ hne⟩
  · -- A border that goes on differently is not `k`, so it is a border of `k`.
    intro l hborder hne
    have hlk : l < k := by
      refine Nat.lt_of_le_of_ne (h.max l hborder) ?_
      rintro rfl
      exact hne heq
    exact hf.max l (h.toBorder.of_lt hborder hlk) (heq ▸ hne)

/-- Where a match that broke off at `i` may go on: the proper prefixes that end the first `i`
elements and go on differently. -/
def fallbacks (pat : List α) (i : Nat) : Set Nat :=
  {k | k < i ∧ pat.take k <:+ pat.take i ∧ pat[k]? ≠ pat[i]?}

theorem mem_fallbacks_iff (hi : i ≤ pat.length) :
    k ∈ fallbacks pat i ↔ Border pat i k ∧ pat[k]? ≠ pat[i]? := by
  constructor
  · rintro ⟨hlt, hsuf, hne⟩
    exact ⟨⟨⟨Nat.le_of_lt (Nat.lt_of_lt_of_le hlt hi), hsuf⟩, hlt⟩, hne⟩
  · rintro ⟨hborder, hne⟩
    exact ⟨hborder.lt, hborder.suffix, hne⟩

/-- The entry is the largest of them, and `-1` where there is none. -/
theorem strongFail_iff (hi : i ≤ pat.length) {f : Int} :
    StrongFail pat i f ↔ (∃ k : Nat, f = k ∧ IsGreatest (fallbacks pat i) k) ∨
      (f = -1 ∧ fallbacks pat i = ∅) := by
  constructor
  · intro h
    by_cases hneg : f < 0
    · -- An entry below zero is `-1`, and anything in the set would be at most `-1`.
      have hge := h.ge
      refine Or.inr ⟨by omega, Set.eq_empty_iff_forall_notMem.2 ?_⟩
      intro k hk
      rcases (mem_fallbacks_iff hi).1 hk with ⟨hborder, hne⟩
      have := h.max k hborder hne
      omega
    · obtain ⟨k, rfl⟩ : ∃ k : Nat, f = k := ⟨f.toNat, by omega⟩
      refine Or.inl ⟨k, rfl, (mem_fallbacks_iff hi).2 (h.border k rfl), ?_⟩
      intro l hl
      rcases (mem_fallbacks_iff hi).1 hl with ⟨hborder, hne⟩
      exact Int.ofNat_le.1 (h.max l hborder hne)
  · rintro (⟨k, rfl, hmem, hmax⟩ | ⟨rfl, hnone⟩)
    · refine ⟨by omega, ?_, ?_⟩
      · intro l hl
        obtain rfl : k = l := Int.ofNat.inj hl
        exact (mem_fallbacks_iff hi).1 hmem
      · intro l hborder hne
        exact Int.ofNat_le.2 (hmax ((mem_fallbacks_iff hi).2 ⟨hborder, hne⟩))
    · refine ⟨Int.le_refl _, fun k hk => by omega, ?_⟩
      intro l hborder hne
      have hmem : l ∈ fallbacks pat i := (mem_fallbacks_iff hi).2 ⟨hborder, hne⟩
      rw [hnone] at hmem
      exact absurd hmem (Set.notMem_empty l)

/-- A partial match that goes on like the text, where a longer one does not, is not passed over by
the entry for the longer one. -/
theorem PartialMatch.le_fail {f : Int} (hj : PartialMatch pat txt i j)
    (hne : pat[j]? ≠ txt[i]?) (hf : StrongFail pat j f) (hk : PartialMatch pat txt i k)
    (heq : pat[k]? = txt[i]?) (hle : k ≤ j) : (k : Int) ≤ f := by
  -- The longer one does not go on like the text, so it is another one, and `k` is a border of it.
  have hlt : k < j := by
    refine Nat.lt_of_le_of_ne hle ?_
    rintro rfl
    exact hne heq
  refine hf.max k (hj.border hk hlt) ?_
  rw [heq]
  exact Ne.symm hne

/-! ## Occurrences -/

theorem occursAt_iff (hpat : pat ≠ []) :
    OccursAt pat txt i ↔ i + pat.length ≤ txt.length ∧ ∀ t < pat.length, txt[i + t]? = pat[t]? := by
  have hpos : 0 < pat.length := List.length_pos_iff.2 hpat
  constructor
  · intro h
    have hlen := congrArg List.length h
    simp only [slice, List.length_take, List.length_drop] at hlen
    refine ⟨by omega, ?_⟩
    intro t ht
    calc
      txt[i + t]? = (slice txt i pat.length)[t]? := by
        rw [slice, List.getElem?_take_of_lt ht, List.getElem?_drop]
      _ = pat[t]? := by rw [h]
  · rintro ⟨hfit, hsame⟩
    apply List.ext_getElem?
    intro t
    by_cases ht : t < pat.length
    · rw [slice, List.getElem?_take_of_lt ht, List.getElem?_drop, hsame t ht]
    · -- Behind its end neither list has an element.
      have hlen := length_slice hfit
      rw [List.getElem?_eq_none (by omega), List.getElem?_eq_none (by omega)]

/-- An occurrence that is being read is a partial match that goes on like the text. -/
theorem OccursAt.partialMatch (h : OccursAt pat txt i) (hk : k ≤ pat.length) :
    PartialMatch pat txt (i + k) k := by
  refine ⟨hk, ?_⟩
  have htake : (txt.drop i).take k = pat.take k := by
    calc
      (txt.drop i).take k = ((txt.drop i).take pat.length).take k := by
        rw [List.take_take, Nat.min_eq_left hk]
      _ = pat.take k := by
        have h' : (txt.drop i).take pat.length = pat := h
        rw [h']
  rw [List.take_add, htake]
  exact List.suffix_append _ _

/-- A partial match of the whole pattern is an occurrence. -/
theorem PartialMatch.occursAt (h : PartialMatch pat txt i pat.length) (hi : i ≤ txt.length) :
    pat.length ≤ i ∧ OccursAt pat txt (i - pat.length) := by
  have hsuf := h.suffix
  rw [List.take_length] at hsuf
  have hlen := hsuf.length_le
  rw [List.length_take_of_le hi] at hlen
  refine ⟨hlen, ?_⟩
  have hdrop := List.suffix_iff_eq_drop.1 hsuf
  rw [List.length_take_of_le hi, List.drop_take, Nat.sub_sub_self hlen] at hdrop
  exact hdrop.symm

end Cxx
