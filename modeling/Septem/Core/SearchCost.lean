import Septem.Core.BufferAccesses

/-!
# SearchCost — how many elements `BufferBuffer` touches

`BufferBuffer` may compare an element of the text again and again while it falls back in the
pattern.  Every fall back is paid for by an earlier step forward, which made `j` larger: with the
logs of `BufferAccesses` the number of accesses, and of the places where a loop falls back, is
linear in the lengths of text and pattern (`search_linear`), whatever they contain.  And the text is
read forward only, so that it could come from a stream.
-/

namespace Septem

open Cxx Logged

variable {α : Type} [DecidableEq α]

/-! ## Filling the table -/

/-- Ten events for each element that is still to be passed, four for each that `failIndex` can fall
back. -/
def FailLoop.potential (length : Nat) (s : FailLoop) : Nat :=
  (10 * (length - s.index) + 4 * (s.failIndex + 1)).toNat

/-- The place in the text that was read. -/
def Access.textPlace : Access → List Int
  | .text i => [i]
  | _ => []

/-- The places of the text that were read, in order. -/
def textReads (log : List Access) : List Int :=
  log.flatMap Access.textPlace

section Reads

variable {text pattern : List α} {i j : Int} {go : Bool} {log log' : List Access}

theorem textReads_snoc (log : List Access) (event : Access) :
    textReads (log ++ [event]) = textReads log ++ event.textPlace := by
  rw [textReads, List.flatMap_append, List.flatMap_singleton, textReads]

/-- The test compares two elements, or none. -/
theorem restartOrEqualLogged_log {access : Int → Access}
    (h : (restartOrEqualLogged access text pattern i j).run log = .ok (go, log')) :
    (log' = log ∧ go = true) ∨ log' = log ++ [access i] ++ [.pattern j] := by
  unfold restartOrEqualLogged at h
  split at h
  · rcases run_pure_eq_ok.1 h with ⟨hgo, rfl⟩
    exact .inl ⟨rfl, hgo⟩
  · simp only [run_bind_eq_ok, run_readAt_eq_ok, run_pure_eq_ok] at h
    rcases h with ⟨a, _, ⟨-, rfl⟩, b, _, ⟨-, rfl⟩, -, rfl⟩
    exact .inr rfl

theorem restartOrEqualLogged_length {access : Int → Access}
    (h : (restartOrEqualLogged access text pattern i j).run log = .ok (go, log')) :
    log'.length ≤ log.length + 2 := by
  rcases restartOrEqualLogged_log h with ⟨rfl, -⟩ | rfl
  · exact Nat.le_add_right _ 2
  · rw [List.length_append, List.length_append]
    exact Nat.le_refl _

end Reads

section FailBody

variable {pattern : List α} {i : Nat} {s s' : FailLoop} {log log' : List Access}

/-- A round that goes on logs the test, two elements and the new entry, with the entry it is made
from; one that falls back logs the test, the entry and the place. -/
theorem failBody_cost (h : FailInv pattern i s)
    (hrun : (FailLoop.bodyLogged pattern s).run log = .ok (s', log')) :
    textReads log' = textReads log ∧
      ((s'.index = s.index + 1 ∧ s'.failIndex = s.failIndex + 1 ∧ log'.length ≤ log.length + 6) ∨
        (s'.index = s.index ∧ s'.failIndex < s.failIndex ∧ log'.length ≤ log.length + 4)) := by
  rcases run_bind_eq_ok.1 hrun with ⟨go, mid, htest, hrest⟩
  have hlength := restartOrEqualLogged_length htest
  have hreads : textReads mid = textReads log := by
    rcases restartOrEqualLogged_log htest with ⟨rfl, -⟩ | rfl
    · rfl
    · simp only [textReads_snoc, Access.textPlace, List.append_nil]
  cases go with
  | true =>
      -- Both places go on, and one of the two entries is written.
      simp only [if_true, run_bind_eq_ok, run_lift_eq_ok, run_readAt_eq_ok, int32_eq_ok] at hrest
      rcases hrest with ⟨index, _, ⟨⟨-, rfl⟩, rfl⟩, failIndex, _, ⟨⟨-, rfl⟩, rfl⟩, a, _, ⟨-, rfl⟩,
        b, _, ⟨-, rfl⟩, hentry⟩
      split at hentry
      · simp only [run_bind_eq_ok, run_readAt_eq_ok, run_assignAndLog_eq_ok, run_pure_eq_ok]
          at hentry
        rcases hentry with ⟨entry, _, ⟨-, rfl⟩, fail', _, ⟨-, rfl⟩, rfl, rfl⟩
        refine ⟨?_, .inl ⟨rfl, rfl, ?_⟩⟩
        · simp only [textReads_snoc, Access.textPlace, List.append_nil, hreads]
        · simp only [List.length_append, List.length_singleton]
          omega
      · simp only [run_bind_eq_ok, run_assignAndLog_eq_ok, run_pure_eq_ok] at hentry
        rcases hentry with ⟨fail', _, ⟨-, rfl⟩, rfl, rfl⟩
        refine ⟨?_, .inl ⟨rfl, rfl, ?_⟩⟩
        · simp only [textReads_snoc, Access.textPlace, List.append_nil, hreads]
        · simp only [List.length_append, List.length_singleton]
          omega
  | false =>
      simp only [Bool.false_eq_true, if_false, run_bind_eq_ok, run_readAt_eq_ok,
        run_record_eq_ok, run_pure_eq_ok] at hrest
      rcases hrest with ⟨f, _, ⟨hf, rfl⟩, _, _, rfl, rfl, rfl⟩
      -- An entry of the table is less than its place, so falling back lowers the potential.
      refine ⟨?_, .inr ⟨rfl, h.entry_lt hf, ?_⟩⟩
      · simp only [textReads_snoc, Access.textPlace, List.append_nil, hreads]
      · simp only [List.length_append, List.length_singleton]
        omega

/-- A round pays for what it logs. -/
theorem failBody_pays (hsize : pattern.length < 2 ^ 31) (hinv : ∃ i, FailInv pattern i s)
    (hgo : s.cond pattern.length = .ok true)
    (hrun : (FailLoop.bodyLogged pattern s).run log = .ok (s', log')) :
    (∃ i, FailInv pattern i s') ∧
      log'.length + s'.potential pattern.length ≤ log.length + s.potential pattern.length := by
  rcases hinv with ⟨i, h⟩
  rw [h.cond_eq hsize] at hgo
  have hnext := of_decide_eq_true (Except.ok.inj hgo)
  -- The invariant comes from the loop without the log.
  rcases failBody_step hsize h hnext with ⟨t, hbody, ⟨i', h'⟩, -⟩
  rw [(erases_failBody pattern s).eq_ok hrun] at hbody
  obtain rfl : s' = t := Except.ok.inj hbody
  refine ⟨⟨i', h'⟩, ?_⟩
  have hindex := h.index
  have hge := h.ge
  have hge' := h'.ge
  simp only [FailLoop.potential]
  rcases (failBody_cost h hrun).2 with ⟨hindex', hfail', hlength⟩ | ⟨hindex', hfail', hlength⟩
  · omega
  · omega

/-- The table costs fewer than ten events for each of its entries, and none of them is in the
text. -/
theorem bufferFailArray_cost {fail fail' : List Int} {fuel : Nat} (hpos : 0 < pattern.length)
    (hsize : pattern.length < 2 ^ 31) (hlen : fail.length = pattern.length)
    (hrun : (bufferFailArrayLogged fuel pattern fail pattern.length).run [] =
      .ok (some fail', log)) :
    textReads log = [] ∧ log.length + 9 ≤ 10 * pattern.length := by
  have hlength : (pattern.length : Int) > 0 := by omega
  simp only [bufferFailArrayLogged, if_pos hlength, run_bind_eq_ok, run_assignAndLog_eq_ok] at hrun
  rcases hrun with ⟨first, _, ⟨hset, rfl⟩, result, mid, hloop, hrest⟩
  have hfirst : first = fail.set 0 (-1) := by
    rcases assignAt_inv hset with ⟨k, hk, -, hfirst⟩
    obtain rfl : 0 = k := Int.ofNat.inj hk
    exact hfirst
  cases result with
  | none => cases (run_pure_eq_ok.1 hrest).1
  | some s =>
      rcases run_pure_eq_ok.1 hrest with ⟨-, rfl⟩
      have hstart : ∃ i, FailInv pattern i { fail := first } :=
        ⟨0, hfirst ▸ failInv_start hpos hlen⟩
      rcases loggedLoop_cost (fun _ _ _ _ => failBody_pays hsize) hstart hloop with
        ⟨⟨i, hinv⟩, hpaid⟩
      -- The table is made from the pattern alone.
      have hreads (t : FailLoop) (before : List Access) (t' : FailLoop) (after : List Access)
          (ht : (∃ i, FailInv pattern i t) ∧ textReads before = [])
          (hgo : t.cond pattern.length = .ok true)
          (hround : (FailLoop.bodyLogged pattern t).run before = .ok (t', after)) :
          (∃ i, FailInv pattern i t') ∧ textReads after = [] := by
        refine ⟨(failBody_pays hsize ht.1 hgo hround).1, ?_⟩
        rcases ht.1 with ⟨i, hinv⟩
        exact (failBody_cost hinv hround).1.trans ht.2
      refine ⟨(loggedLoop_keeps hreads ⟨hstart, rfl⟩ hloop).1.2, ?_⟩
      -- At the end the last element is still to be paid for.
      have hindex := hinv.index
      have hlt := hinv.lt
      have hge := hinv.ge
      simp only [FailLoop.potential, List.nil_append, List.length_singleton] at hpaid
      omega

end FailBody

/-! ## Searching -/

def SearchLoop.potential (length : Nat) (s : SearchLoop) : Nat :=
  (6 * (length - s.i) + 4 * (s.j + 1)).toNat

/-- The text was read forward, up to `bound`. -/
def Forward (bound : Int) (log : List Access) : Prop :=
  (textReads log).Pairwise (· ≤ ·) ∧ ∀ i ∈ textReads log, i ≤ bound

section SearchBody

variable {text pattern : List α} {fail : List Int} {s s' : SearchLoop} {log log' : List Access}

omit [DecidableEq α] in
theorem Forward.mono {bound bound' : Int} (h : Forward bound log) (hle : bound ≤ bound') :
    Forward bound' log :=
  ⟨h.1, fun i hi => Int.le_trans (h.2 i hi) hle⟩

theorem Forward.read {bound : Int} (h : Forward bound log)
    (hlog : textReads log' = textReads log ∨ textReads log' = textReads log ++ [bound]) :
    Forward bound log' := by
  rcases hlog with hsame | hread
  · rw [Forward, hsame]
    exact h
  · rw [Forward, hread]
    constructor
    · apply List.pairwise_append.2
      refine ⟨h.1, List.pairwise_singleton _ _, ?_⟩
      intro i hi k hk
      rw [List.mem_singleton.1 hk]
      exact h.2 i hi
    · intro i hi
      rcases List.mem_append.1 hi with hold | hnew
      · exact h.2 i hold
      · exact Int.le_of_eq (List.mem_singleton.1 hnew)

/-- A round of the search that goes on logs the test, one that falls back the test, the entry and
the place. -/
theorem searchBody_cost (hfail : FailTable pattern fail)
    (hrun : (SearchLoop.bodyLogged text pattern fail s).run log = .ok (s', log')) :
    (textReads log' = textReads log ∨ textReads log' = textReads log ++ [s.i]) ∧
      ((s'.i = s.i + 1 ∧ s'.j = s.j + 1 ∧ log'.length ≤ log.length + 2) ∨
        (s'.i = s.i ∧ s'.j < s.j ∧ log'.length ≤ log.length + 4)) := by
  rcases run_bind_eq_ok.1 hrun with ⟨go, mid, htest, hrest⟩
  have hlength := restartOrEqualLogged_length htest
  have hreads : textReads mid = textReads log ∨ textReads mid = textReads log ++ [s.i] := by
    rcases restartOrEqualLogged_log htest with ⟨rfl, -⟩ | rfl
    · exact .inl rfl
    · right
      simp only [textReads_snoc, Access.textPlace, List.append_nil]
  cases go with
  | true =>
      simp only [if_true, run_bind_eq_ok, run_lift_eq_ok, run_pure_eq_ok, int32_eq_ok] at hrest
      rcases hrest with ⟨i, _, ⟨⟨-, rfl⟩, rfl⟩, j, _, ⟨⟨-, rfl⟩, rfl⟩, rfl, rfl⟩
      exact ⟨hreads, .inl ⟨rfl, rfl, hlength⟩⟩
  | false =>
      simp only [Bool.false_eq_true, if_false, run_bind_eq_ok, run_readAt_eq_ok,
        run_record_eq_ok, run_pure_eq_ok] at hrest
      rcases hrest with ⟨f, _, ⟨hf, rfl⟩, _, _, rfl, rfl, rfl⟩
      -- The same place of the text is compared again, with an earlier one of the pattern.
      refine ⟨?_, .inr ⟨rfl, hfail.entry_lt hf, ?_⟩⟩
      · simp only [textReads_snoc, Access.textPlace, List.append_nil]
        exact hreads
      · simp only [List.length_append, List.length_singleton]
        omega

theorem searchBody_pays (htext : text.length < 2 ^ 31) (hpattern : pattern.length < 2 ^ 31)
    (hfail : FailTable pattern fail) (hinv : ∃ i, SearchInv text pattern i s)
    (hgo : s.cond text.length pattern.length = .ok true)
    (hrun : (SearchLoop.bodyLogged text pattern fail s).run log = .ok (s', log')) :
    (∃ i, SearchInv text pattern i s') ∧
      log'.length + s'.potential text.length ≤ log.length + s.potential text.length := by
  rcases hinv with ⟨i, h⟩
  have hboth := Except.ok.inj hgo
  rw [Bool.and_eq_true, decide_eq_true_iff, decide_eq_true_iff, h.index] at hboth
  rcases searchBody_step htext hpattern hfail h (Int.ofNat_lt.1 hboth.1) hboth.2 with
    ⟨t, hbody, ⟨i', h'⟩, -⟩
  rw [(erases_searchBody text pattern fail s).eq_ok hrun] at hbody
  obtain rfl : s' = t := Except.ok.inj hbody
  refine ⟨⟨i', h'⟩, ?_⟩
  have hindex := h.index
  have hge := h.ge
  have hge' := h'.ge
  simp only [SearchLoop.potential]
  rcases (searchBody_cost hfail hrun).2 with ⟨hi, hj, hlength⟩ | ⟨hi, hj, hlength⟩
  · omega
  · omega

theorem searchLoop_cost (htext : text.length < 2 ^ 31) (hpattern : pattern.length < 2 ^ 31)
    (hfail : FailTable pattern fail) {fuel : Nat} (hreads : textReads log = [])
    (hrun : (loggedLoop (SearchLoop.cond text.length pattern.length)
      (SearchLoop.bodyLogged text pattern fail) fuel {}).run log = .ok (some s, log')) :
    (textReads log').Pairwise (· ≤ ·) ∧ log'.length ≤ log.length + (6 * text.length + 4) := by
  have hstart : ∃ i, SearchInv text pattern i {} := ⟨0, searchInv_start text pattern⟩
  have hforward (t : SearchLoop) (before : List Access) (t' : SearchLoop) (after : List Access)
      (ht : (∃ i, SearchInv text pattern i t) ∧ Forward t.i before)
      (hgo : t.cond text.length pattern.length = .ok true)
      (hround : (SearchLoop.bodyLogged text pattern fail t).run before = .ok (t', after)) :
      (∃ i, SearchInv text pattern i t') ∧ Forward t'.i after := by
    refine ⟨(searchBody_pays htext hpattern hfail ht.1 hgo hround).1, ?_⟩
    -- A round reads the text at `i`, and `i` never goes back.
    rcases searchBody_cost hfail hround with ⟨hlog, hmove⟩
    have hle : t.i ≤ t'.i := by omega
    exact (ht.2.read hlog).mono hle
  have hnone : Forward 0 log := by
    rw [Forward, hreads]
    exact ⟨List.Pairwise.nil, nofun⟩
  have hpaid := (loggedLoop_cost (fun _ _ _ _ => searchBody_pays htext hpattern hfail) hstart
    hrun).2
  refine ⟨(loggedLoop_keeps hforward ⟨hstart, hnone⟩ hrun).1.2.1, ?_⟩
  simp only [SearchLoop.potential] at hpaid
  omega

/-- What the two loops cost together. -/
theorem bufferBufferLogged_cost {fuel : Nat} {r : Int} (htext : text.length < 2 ^ 31)
    (hpattern : pattern.length < 2 ^ 31) (htextPos : 0 < text.length) (hpos : 0 < pattern.length)
    (hfuel : 2 * pattern.length < fuel)
    (hrun : (bufferBufferLogged fuel text text.length pattern pattern.length).run [] =
      .ok (some r, log)) :
    (textReads log).Pairwise (· ≤ ·) ∧ log.length ≤ 6 * text.length + 10 * pattern.length := by
  rcases run_bind_eq_ok.1 hrun with ⟨fail₀, _, hresize, hrest⟩
  rcases run_lift_eq_ok.1 hresize with ⟨hfail₀, rfl⟩
  have hlen₀ : fail₀.length = pattern.length := by
    rw [length_of_resize hfail₀, Int.toNat_natCast]
  have hboth : ¬ ((text.length : Int) ≤ 0 ∨ (pattern.length : Int) ≤ 0) := by omega
  rw [if_neg hboth] at hrest
  rcases run_bind_eq_ok.1 hrest with ⟨table, mid, hfill, hsearch⟩
  cases table with
  | none => cases (run_pure_eq_ok.1 hsearch).1
  | some fail =>
      rcases bufferFailArray_cost hpos hpattern hlen₀ hfill with ⟨hreads, hfillCost⟩
      have hfail := failTable_of_run hpos hpattern hlen₀ hfuel hfill
      rcases run_bind_eq_ok.1 hsearch with ⟨result, last, hloop, hresult⟩
      cases result with
      | none => cases (run_pure_eq_ok.1 hresult).1
      | some s =>
          rcases searchLoop_cost htext hpattern hfail hreads hloop with ⟨hforward, hloopCost⟩
          -- What is left touches neither text nor pattern.
          have hlast : log = last := by
            simp only [] at hresult
            split at hresult
            · simp only [run_bind_eq_ok, run_lift_eq_ok, run_pure_eq_ok] at hresult
              rcases hresult with ⟨first, _, ⟨-, rfl⟩, -, rfl⟩
              rfl
            · exact (run_pure_eq_ok.1 hresult).2
          rw [hlast]
          exact ⟨hforward, by omega⟩

end SearchBody

/-- On every text and pattern `BufferBuffer` returns after at most six events for each element of
the text and ten for each of the pattern, accesses and fall backs together, and reads the text
forward only. -/
theorem search_linear {text pattern : List α} {fuel : Nat} (htext : text.length < 2 ^ 31)
    (hpattern : pattern.length < 2 ^ 31) (hfuel : 2 * (text.length + pattern.length) < fuel) :
    ∃ r log, bufferBuffer fuel text text.length pattern pattern.length = .ok (some r) ∧
      (bufferBufferLogged fuel text text.length pattern pattern.length).run [] =
        .ok (some r, log) ∧
      (textReads log).Pairwise (· ≤ ·) ∧ log.length ≤ 6 * text.length + 10 * pattern.length := by
  by_cases hempty : text.length = 0 ∨ pattern.length = 0
  · -- Nothing is read.
    rcases resize_ok [] (Int.natCast_nonneg pattern.length) (0 : Int) with ⟨fail, hfail, -⟩
    have hnone : (text.length : Int) ≤ 0 ∨ (pattern.length : Int) ≤ 0 := by omega
    refine ⟨-1, [], ?_, ?_, List.Pairwise.nil, Nat.zero_le _⟩
    · rw [bufferBuffer, hfail, Checked.ok_bind, if_pos hnone]
      rfl
    · refine run_bind_eq_ok.2 ⟨fail, [], run_lift_eq_ok.2 ⟨hfail, rfl⟩, ?_⟩
      rw [if_pos hnone]
      exact run_pure_eq_ok.2 ⟨rfl, rfl⟩
  · have htextPos : 0 < text.length := by omega
    have hpos : 0 < pattern.length := by omega
    obtain ⟨r, hplain⟩ :
        ∃ r, bufferBuffer fuel text text.length pattern pattern.length = .ok (some r) := by
      rcases firstOccurrence_or_none pattern text with ⟨p, hp⟩ | hnone
      · exact ⟨p, bufferBuffer_found htext hpattern hpos hfuel hp⟩
      · exact ⟨-1, bufferBuffer_missing htext hpattern hpos hfuel hnone⟩
    -- The logged search runs as the plain one does.
    rcases (erases_bufferBuffer fuel text text.length pattern pattern.length).run_ok hplain [] with
      ⟨log, hrun⟩
    exact ⟨r, log, hplain, hrun,
      bufferBufferLogged_cost htext hpattern htextPos hpos (by omega) hrun⟩

/-- A text that makes the search fall back at every third element. -/
theorem search_linear_fallBacks :
    ∃ r log, (bufferBufferLogged 40 [1, 1, 2, 1, 1, 2, 1, 1, 3] 9 [1, 1, 3] 3).run [] =
        .ok (some r, log) ∧
      r = 6 ∧ (textReads log).Pairwise (· ≤ ·) ∧ log.length ≤ 84 := by
  have htext : [1, 1, 2, 1, 1, 2, 1, 1, 3].length < 2 ^ 31 := by decide
  have hpattern : [1, 1, 3].length < 2 ^ 31 := by decide
  rcases search_linear htext hpattern (show _ < 40 by decide) with
    ⟨r, log, hplain, hrun, hforward, hcost⟩
  have hresult : r = 6 := by
    cases hplain
    rfl
  exact ⟨r, log, hrun, hresult, hforward, hcost⟩

end Septem
