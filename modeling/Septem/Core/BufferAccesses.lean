import Septem.Core.BufferSearch
import Septem.Library.Logged

/-!
# BufferAccesses — which elements `BufferFailArray` and `BufferBuffer` touch

The functions of `Core/Algorithm/SeptemBuffer.h` once more, with a log of their accesses to the
text, the pattern and the failure table, and of the places where a loop falls back.  This file
defines

* `bufferFailArrayLogged` and `bufferBufferLogged`, which are `bufferFailArray` and `bufferBuffer`
  with a log (`erases_bufferFailArray`, `erases_bufferBuffer`);
* `Access.Allowed`: the index is in range, an entry of the table was written before it is read, and
  falling back makes the index smaller.

`accesses_orderly` is the result: both functions return, and every access is allowed.
-/

namespace Septem

open Cxx Logged

variable {α : Type} [DecidableEq α]

/-! ## The functions with their accesses -/

inductive Access
  | text (i : Int)
  | pattern (i : Int)
  | failRead (j entry : Int)
  | failWrite (j entry : Int)
  | fallBack (j next : Int)
  deriving DecidableEq, Repr

/-- The text is the pattern itself where the table is filled, so the event is a parameter. -/
def restartOrEqualLogged (access : Int → Access) (text pattern : List α) (i j : Int) :
    Logged Access Bool :=
  if -1 = j then
    pure true
  else do
    let a ← readAt (fun i _ => access i) text i
    let b ← readAt (fun j _ => .pattern j) pattern j
    return decide (a = b)

def FailLoop.bodyLogged (buffer : List α) (s : FailLoop) : Logged Access FailLoop := do
  if ← restartOrEqualLogged .pattern buffer buffer s.index s.failIndex then do
    let index ← int32 (s.index + 1)
    let failIndex ← int32 (s.failIndex + 1)
    let a ← readAt (fun i _ => .pattern i) buffer index
    let b ← readAt (fun i _ => .pattern i) buffer failIndex
    if a = b then do
      let entry ← readAt .failRead s.fail failIndex
      let fail ← assignAndLog .failWrite s.fail index entry
      return { index, failIndex, fail }
    else do
      let fail ← assignAndLog .failWrite s.fail index failIndex
      return { index, failIndex, fail }
  else do
    let failIndex ← readAt .failRead s.fail s.failIndex
    record (.fallBack s.failIndex failIndex)
    return { s with failIndex }

def bufferFailArrayLogged (fuel : Nat) (buffer : List α) (fail : List Int) (length : Int) :
    Logged Access (Option (List Int)) :=
  if length > 0 then do
    let fail ← assignAndLog .failWrite fail 0 (-1)
    match ← loggedLoop (FailLoop.cond length) (FailLoop.bodyLogged buffer) fuel
        { fail := fail } with
    | none => return none
    | some s => return some s.fail
  else
    liftM (.error .assertion : Checked (Option (List Int)))

def SearchLoop.bodyLogged (mBuffer nBuffer : List α) (fail : List Int) (s : SearchLoop) :
    Logged Access SearchLoop := do
  if ← restartOrEqualLogged .text mBuffer nBuffer s.i s.j then do
    let i ← int32 (s.i + 1)
    let j ← int32 (s.j + 1)
    return { i, j }
  else do
    let j ← readAt .failRead fail s.j
    record (.fallBack s.j j)
    return { s with j }

/-- The zeros that `Fail` starts with are no writes: the log has those of `BufferFailArray`. -/
def bufferBufferLogged (fuel : Nat) (mBuffer : List α) (mLength : Int) (nBuffer : List α)
    (nLength : Int) : Logged Access (Option Int) := do
  let fail ← resize [] nLength 0
  if mLength ≤ 0 ∨ nLength ≤ 0 then
    return some (-1)
  else do
    match ← bufferFailArrayLogged fuel nBuffer fail nLength with
    | none => return none
    | some fail =>
        match ← loggedLoop (SearchLoop.cond mLength nLength)
            (SearchLoop.bodyLogged mBuffer nBuffer fail) fuel {} with
        | none => return none
        | some s =>
            if nLength = s.j then do
              let first ← int32 (s.i - nLength)
              return some first
            else
              return some (-1)

/-! ## Without the log -/

section Erasure

theorem erases_restartOrEqual (access : Int → Access) (text pattern : List α) (i j : Int) :
    Erases (restartOrEqualLogged access text pattern i j) (restartOrEqual text pattern i j) :=
  (erases_pure true).ite
    ((erases_readAt _ text i).bind fun a =>
      (erases_readAt _ pattern j).bind fun b => erases_pure (decide (a = b)))

theorem erases_failBody (buffer : List α) (s : FailLoop) :
    Erases (FailLoop.bodyLogged buffer s) (FailLoop.body buffer s) := by
  refine (erases_restartOrEqual _ buffer buffer s.index s.failIndex).bind fun go => Erases.ite ?_ ?_
  · refine (erases_lift _).bind fun index => (erases_lift _).bind fun failIndex => ?_
    refine (erases_readAt _ buffer index).bind fun a => ?_
    refine (erases_readAt _ buffer failIndex).bind fun b => Erases.ite ?_ ?_
    · refine (erases_readAt _ s.fail failIndex).bind fun entry => ?_
      exact (erases_assignAndLog _ s.fail index entry).bind fun fail => erases_pure _
    · exact (erases_assignAndLog _ s.fail index failIndex).bind fun fail => erases_pure _
  · exact (erases_readAt _ s.fail s.failIndex).bind fun failIndex =>
      (erases_pure _).record_then _

theorem erases_bufferFailArray (fuel : Nat) (buffer : List α) (fail : List Int) (length : Int) :
    Erases (bufferFailArrayLogged fuel buffer fail length)
      (bufferFailArray fuel buffer fail length) := by
  refine Erases.ite ?_ (erases_lift _)
  refine (erases_assignAndLog _ fail 0 (-1)).bind fun fail => ?_
  refine (erases_loggedLoop (erases_failBody buffer) fuel { fail := fail }).bind fun result => ?_
  cases result with
  | none => exact erases_pure none
  | some s => exact erases_pure (some s.fail)

theorem erases_searchBody (mBuffer nBuffer : List α) (fail : List Int) (s : SearchLoop) :
    Erases (SearchLoop.bodyLogged mBuffer nBuffer fail s)
      (SearchLoop.body mBuffer nBuffer fail s) := by
  refine (erases_restartOrEqual _ mBuffer nBuffer s.i s.j).bind fun go => Erases.ite ?_ ?_
  · exact (erases_lift _).bind fun i => (erases_lift _).bind fun j => erases_pure _
  · exact (erases_readAt _ fail s.j).bind fun j => (erases_pure _).record_then _

theorem erases_bufferBuffer (fuel : Nat) (mBuffer : List α) (mLength : Int) (nBuffer : List α)
    (nLength : Int) :
    Erases (bufferBufferLogged fuel mBuffer mLength nBuffer nLength)
      (bufferBuffer fuel mBuffer mLength nBuffer nLength) := by
  refine (erases_lift _).bind fun fail => Erases.ite (erases_pure _) ?_
  refine (erases_bufferFailArray fuel nBuffer fail nLength).bind fun table => ?_
  cases table with
  | none => exact erases_pure none
  | some fail =>
      refine (erases_loggedLoop (erases_searchBody mBuffer nBuffer fail) fuel {}).bind
        fun result => ?_
      cases result with
      | none => exact erases_pure none
      | some s => exact ((erases_lift _).bind fun first => erases_pure _).ite (erases_pure _)

end Erasure

/-! ## What is allowed -/

/-- For a text of `mLength` and a pattern of `nLength` elements: the index is in range, an entry
that is read was written before, and falling back goes to the entry just read, which is smaller. -/
def Access.Allowed (mLength nLength : Nat) (before : List Access) : Access → Prop
  | text i => 0 ≤ i ∧ i < mLength
  | pattern i => 0 ≤ i ∧ i < nLength
  | failRead j entry => 0 ≤ j ∧ j < nLength ∧ failWrite j entry ∈ before
  | failWrite j _ => 0 ≤ j ∧ j < nLength
  | fallBack j next => failRead j next ∈ before ∧ next < j

/-- The entries of the table below `bound` are those that were written. -/
def Written (fail : List Int) (bound : Int) (log : List Access) : Prop :=
  ∀ (t : Nat) (f : Int), t < bound → fail[t]? = some f → Access.failWrite t f ∈ log

section Allowed

omit [DecidableEq α]

variable {text pattern : List α} {fail : List Int} {log log' before : List Access} {m n : Nat}
  {i j bound f : Int} {x : α}

theorem Written.mono (h : Written fail bound log) (hkept : ∀ event ∈ log, event ∈ log') :
    Written fail bound log' :=
  fun t f ht hget => hkept _ (h t f ht hget)

/-- The entry behind the written ones is written. -/
theorem Written.assign {fail' : List Int} (h : Written fail bound log)
    (hj : j = bound) (hset : assignAt fail j f = .ok fail') :
    Written fail' (j + 1) (log ++ [.failWrite j f]) := by
  rcases assignAt_inv hset with ⟨k, rfl, hk, rfl⟩
  intro t g ht hget
  by_cases hlast : k = t
  · subst hlast
    rw [List.getElem?_set_self hk] at hget
    obtain rfl : f = g := Option.some.inj hget
    exact List.mem_append_right _ (List.mem_singleton.2 rfl)
  · rw [List.getElem?_set_ne hlast] at hget
    exact List.mem_append_left _ (h t g (by omega) hget)

theorem allowed_pattern (h : elementAt pattern i = .ok x) :
    Access.Allowed m pattern.length before (.pattern i) := by
  rcases elementAt_inv h with ⟨k, rfl, hget⟩
  have := (List.getElem?_eq_some_iff.1 hget).1
  exact ⟨by omega, by omega⟩

theorem allowed_text (h : elementAt text i = .ok x) :
    Access.Allowed text.length n before (.text i) := by
  rcases elementAt_inv h with ⟨k, rfl, hget⟩
  have := (List.getElem?_eq_some_iff.1 hget).1
  exact ⟨by omega, by omega⟩

theorem allowed_failRead (hlen : fail.length = n) (hwritten : Written fail bound before)
    (hj : j < bound) (h : elementAt fail j = .ok f) :
    Access.Allowed m n before (.failRead j f) := by
  rcases elementAt_inv h with ⟨t, rfl, hget⟩
  have := (List.getElem?_eq_some_iff.1 hget).1
  exact ⟨by omega, by omega, hwritten t f hj hget⟩

theorem allowed_failWrite {fail' : List Int} (hlen : fail.length = n)
    (h : assignAt fail j f = .ok fail') : Access.Allowed m n before (.failWrite j f) := by
  rcases assignAt_inv h with ⟨t, rfl, ht, -⟩
  exact ⟨by omega, by omega⟩

theorem entry_lt_of_strongFail {t : Nat} (h : ∃ g, fail[t]? = some g ∧ StrongFail pattern t g)
    (hget : fail[t]? = some f) : f < t := by
  rcases h with ⟨g, hget', hg⟩
  obtain rfl : f = g := Option.some.inj (hget.symm.trans hget')
  exact hg.lt

/-- Falling back right after the entry was read. -/
theorem allowed_fallBack (h : f < j) :
    Access.Allowed m n (before ++ [.failRead j f]) (.fallBack j f) :=
  ⟨List.mem_append_right _ (List.mem_singleton.2 rfl), h⟩

end Allowed

/-- The test of the loops reads where it may. -/
theorem restartOrEqualLogged_extends {access : Int → Access} {text pattern : List α} {m : Nat}
    {i j : Int} {go : Bool} {log log' : List Access}
    (haccess : ∀ before x, elementAt text i = .ok x →
      Access.Allowed m pattern.length before (access i))
    (h : (restartOrEqualLogged access text pattern i j).run log = .ok (go, log')) :
    Extends (Access.Allowed m pattern.length) log log' := by
  unfold restartOrEqualLogged at h
  split at h
  · rcases run_pure_eq_ok.1 h with ⟨-, rfl⟩
    exact Extends.refl _ _
  · simp only [run_bind_eq_ok, run_readAt_eq_ok, run_pure_eq_ok] at h
    rcases h with ⟨a, _, ⟨ha, rfl⟩, b, _, ⟨hb, rfl⟩, -, rfl⟩
    exact ((Extends.refl _ _).snoc (haccess _ a ha)).snoc (allowed_pattern hb)

/-! ## Filling the table -/

/-- The loop of `BufferFailArray` with its log: the accesses so far were allowed, and the entries
up to `index` were written. -/
structure FailLogged (m : Nat) (pattern : List α) (s : FailLoop) (log : List Access) : Prop where
  inv : ∃ i, FailInv pattern i s
  orderly : Orderly (Access.Allowed m pattern.length) log
  written : Written s.fail (s.index + 1) log

section FailBody

variable {pattern : List α} {i m : Nat} {s s' : FailLoop} {log log' : List Access}

omit [DecidableEq α] in
/-- Falling back from an index the table is filled up to goes to a smaller one. -/
theorem FailInv.entry_lt (h : FailInv pattern i s) {f : Int}
    (hf : elementAt s.fail s.failIndex = .ok f) : f < s.failIndex := by
  have hlt := h.failIndex_lt
  rcases elementAt_inv hf with ⟨j, hj, hget⟩
  rw [hj]
  exact entry_lt_of_strongFail (h.table j (by omega)) hget

theorem failBody_extends (h : FailInv pattern i s) (hwritten : Written s.fail (s.index + 1) log)
    (hrun : (FailLoop.bodyLogged pattern s).run log = .ok (s', log')) :
    Extends (Access.Allowed m pattern.length) log log' ∧ Written s'.fail (s'.index + 1) log' := by
  have hindex := h.index
  have hlt := h.failIndex_lt
  rcases run_bind_eq_ok.1 hrun with ⟨go, mid, htest, hrest⟩
  have hmid : Extends (Access.Allowed m pattern.length) log mid :=
    restartOrEqualLogged_extends (fun _ _ hx => allowed_pattern hx) htest
  have hwrittenMid := hwritten.mono hmid.kept
  -- The log grew by what the test read; the rest depends on its outcome.
  cases go with
  | true =>
      simp only [if_true, run_bind_eq_ok, run_lift_eq_ok, run_readAt_eq_ok, int32_eq_ok] at hrest
      rcases hrest with ⟨index, _, ⟨⟨-, rfl⟩, rfl⟩, failIndex, _, ⟨⟨-, rfl⟩, rfl⟩, a, _, ⟨ha, rfl⟩,
        b, _, ⟨hb, rfl⟩, hentry⟩
      -- The elements behind the compared ones are read in either branch.
      have hread := (hmid.snoc (allowed_pattern ha)).snoc (allowed_pattern hb)
      have hwrittenRead := hwritten.mono hread.kept
      split at hentry
      · -- The entry of the border is copied: it stands in front of `index`.
        simp only [run_bind_eq_ok, run_readAt_eq_ok, run_assignAndLog_eq_ok, run_pure_eq_ok]
          at hentry
        rcases hentry with ⟨entry, _, ⟨hget, rfl⟩, fail', _, ⟨hset, rfl⟩, rfl, rfl⟩
        have hcopy := hread.snoc (allowed_failRead h.length_fail hwrittenRead (by omega) hget)
        refine ⟨hcopy.snoc (allowed_failWrite h.length_fail hset), ?_⟩
        exact (hwritten.mono hcopy.kept).assign rfl hset
      · -- The border itself is the entry, and the table is only written.
        simp only [run_bind_eq_ok, run_assignAndLog_eq_ok, run_pure_eq_ok] at hentry
        rcases hentry with ⟨fail', _, ⟨hset, rfl⟩, rfl, rfl⟩
        refine ⟨hread.snoc (allowed_failWrite h.length_fail hset), ?_⟩
        exact hwrittenRead.assign rfl hset
  | false =>
      simp only [Bool.false_eq_true, if_false, run_bind_eq_ok, run_readAt_eq_ok,
        run_record_eq_ok, run_pure_eq_ok] at hrest
      rcases hrest with ⟨f, _, ⟨hf, rfl⟩, _, _, rfl, rfl, rfl⟩
      -- `failIndex` stays behind `index`, so its entry is one of those that were written.
      have hread := hmid.snoc
        (allowed_failRead h.length_fail hwrittenMid (show s.failIndex < s.index + 1 by omega) hf)
      have hback : f < s.failIndex := h.entry_lt hf
      have hall := hread.snoc (allowed_fallBack hback)
      exact ⟨hall, hwritten.mono hall.kept⟩

theorem failBody_keeps (hsize : pattern.length < 2 ^ 31) (h : FailLogged m pattern s log)
    (hgo : s.cond pattern.length = .ok true)
    (hrun : (FailLoop.bodyLogged pattern s).run log = .ok (s', log')) :
    FailLogged m pattern s' log' := by
  rcases h.inv with ⟨i, hinv⟩
  rw [hinv.cond_eq hsize] at hgo
  have hnext := of_decide_eq_true (Except.ok.inj hgo)
  -- Without the log the round is the one of `BufferFailArray`, which keeps its invariant.
  rcases failBody_step hsize hinv hnext with ⟨t, hbody, hinv', -⟩
  rw [(erases_failBody pattern s).eq_ok hrun] at hbody
  obtain rfl : s' = t := Except.ok.inj hbody
  rcases failBody_extends hinv h.written hrun with ⟨hextends, hwritten⟩
  exact ⟨hinv', hextends.orderly h.orderly, hwritten⟩

/-- All of the table is written, by allowed accesses. -/
theorem bufferFailArrayLogged_keeps {fail fail' : List Int} {fuel : Nat}
    (hpos : 0 < pattern.length) (hsize : pattern.length < 2 ^ 31)
    (hlen : fail.length = pattern.length)
    (horder : Orderly (Access.Allowed m pattern.length) log)
    (hrun : (bufferFailArrayLogged fuel pattern fail pattern.length).run log =
      .ok (some fail', log')) :
    Orderly (Access.Allowed m pattern.length) log' ∧ Written fail' pattern.length log' := by
  have hlength : (pattern.length : Int) > 0 := by omega
  simp only [bufferFailArrayLogged, if_pos hlength, run_bind_eq_ok, run_assignAndLog_eq_ok] at hrun
  rcases hrun with ⟨first, _, ⟨hset, rfl⟩, result, mid, hloop, hrest⟩
  cases result with
  | none => cases (run_pure_eq_ok.1 hrest).1
  | some s =>
      rcases run_pure_eq_ok.1 hrest with ⟨hend, rfl⟩
      obtain rfl : fail' = s.fail := Option.some.inj hend
      -- Before `fail[0] = -1` nothing of the table counts as written.
      have hnone : Written fail 0 log := fun t f ht _ => by omega
      have hfirst : first = fail.set 0 (-1) := by
        rcases assignAt_inv hset with ⟨k, hk, -, hfirst⟩
        obtain rfl : 0 = k := Int.ofNat.inj hk
        exact hfirst
      have hstart : FailLogged m pattern { fail := first } (log ++ [.failWrite 0 (-1)]) :=
        ⟨⟨0, hfirst ▸ failInv_start hpos hlen⟩, horder.snoc (allowed_failWrite hlen hset),
          hnone.assign rfl hset⟩
      rcases loggedLoop_keeps (fun _ _ _ _ => failBody_keeps hsize) hstart hloop with
        ⟨hlogged, hend⟩
      refine ⟨hlogged.orderly, ?_⟩
      -- The loop has ended at the last element.
      rcases hlogged.inv with ⟨i, hinv⟩
      rw [hinv.cond_eq hsize] at hend
      have hlast := of_decide_eq_false (Except.ok.inj hend)
      have hindex := hinv.index
      intro t f ht hget
      exact hlogged.written t f (by omega) hget

/-- What the entries are is known of the function without the log. -/
theorem failTable_of_run {fail fail' : List Int} {fuel : Nat} (hpos : 0 < pattern.length)
    (hsize : pattern.length < 2 ^ 31) (hlen : fail.length = pattern.length)
    (hfuel : 2 * pattern.length < fuel)
    (hrun : (bufferFailArrayLogged fuel pattern fail pattern.length).run log =
      .ok (some fail', log')) : FailTable pattern fail' := by
  rcases bufferFailArray_table hpos hsize hlen hfuel with ⟨table, hplain, htable⟩
  rw [(erases_bufferFailArray fuel pattern fail pattern.length).eq_ok hrun] at hplain
  obtain rfl : fail' = table := Option.some.inj (Except.ok.inj hplain)
  exact htable

end FailBody

/-! ## Searching -/

/-- The loop of `BufferBuffer` with its log. -/
structure SearchLogged (text pattern : List α) (fail : List Int) (s : SearchLoop)
    (log : List Access) : Prop where
  inv : ∃ i, SearchInv text pattern i s
  orderly : Orderly (Access.Allowed text.length pattern.length) log
  written : Written fail pattern.length log

section SearchBody

variable {text pattern : List α} {fail : List Int} {s s' : SearchLoop} {log log' : List Access}

omit [DecidableEq α] in
theorem FailTable.entry_lt (h : FailTable pattern fail) {j f : Int}
    (hf : elementAt fail j = .ok f) : f < j := by
  rcases elementAt_inv hf with ⟨t, rfl, hget⟩
  have ht := (List.getElem?_eq_some_iff.1 hget).1
  exact entry_lt_of_strongFail (h.entry t (h.length_fail ▸ ht)) hget

theorem searchBody_extends (hfail : FailTable pattern fail)
    (hwritten : Written fail pattern.length log) (hj : s.j < pattern.length)
    (hrun : (SearchLoop.bodyLogged text pattern fail s).run log = .ok (s', log')) :
    Extends (Access.Allowed text.length pattern.length) log log' := by
  rcases run_bind_eq_ok.1 hrun with ⟨go, mid, htest, hrest⟩
  have hmid : Extends (Access.Allowed text.length pattern.length) log mid :=
    restartOrEqualLogged_extends (fun _ _ hx => allowed_text hx) htest
  cases go with
  | true =>
      simp only [if_true, run_bind_eq_ok, run_lift_eq_ok, run_pure_eq_ok] at hrest
      rcases hrest with ⟨i, _, ⟨-, rfl⟩, j, _, ⟨-, rfl⟩, -, rfl⟩
      exact hmid
  | false =>
      simp only [Bool.false_eq_true, if_false, run_bind_eq_ok, run_readAt_eq_ok,
        run_record_eq_ok, run_pure_eq_ok] at hrest
      rcases hrest with ⟨f, _, ⟨hf, rfl⟩, _, _, rfl, -, rfl⟩
      -- The condition of the loop keeps `j` inside the table, all of which was written.
      have hread := hmid.snoc
        (allowed_failRead hfail.length_fail (hwritten.mono hmid.kept) hj hf)
      have hback : f < s.j := hfail.entry_lt hf
      exact hread.snoc (allowed_fallBack hback)

theorem searchBody_keeps (htext : text.length < 2 ^ 31) (hpattern : pattern.length < 2 ^ 31)
    (hfail : FailTable pattern fail) (h : SearchLogged text pattern fail s log)
    (hgo : s.cond text.length pattern.length = .ok true)
    (hrun : (SearchLoop.bodyLogged text pattern fail s).run log = .ok (s', log')) :
    SearchLogged text pattern fail s' log' := by
  rcases h.inv with ⟨i, hinv⟩
  have hboth := Except.ok.inj hgo
  rw [Bool.and_eq_true, decide_eq_true_iff, decide_eq_true_iff, hinv.index] at hboth
  rcases searchBody_step htext hpattern hfail hinv (Int.ofNat_lt.1 hboth.1) hboth.2 with
    ⟨t, hbody, hinv', -⟩
  rw [(erases_searchBody text pattern fail s).eq_ok hrun] at hbody
  obtain rfl : s' = t := Except.ok.inj hbody
  have hextends := searchBody_extends hfail h.written hboth.2 hrun
  exact ⟨hinv', hextends.orderly h.orderly, h.written.mono hextends.kept⟩

/-- The search reads the table where it was written. -/
theorem bufferBufferLogged_orderly {fuel : Nat} {r : Int} (htext : text.length < 2 ^ 31)
    (hpattern : pattern.length < 2 ^ 31) (htextPos : 0 < text.length) (hpos : 0 < pattern.length)
    (hfuel : 2 * pattern.length < fuel)
    (hrun : (bufferBufferLogged fuel text text.length pattern pattern.length).run [] =
      .ok (some r, log)) :
    Orderly (Access.Allowed text.length pattern.length) log := by
  rcases run_bind_eq_ok.1 hrun with ⟨fail₀, _, hresize, hrest⟩
  rcases run_lift_eq_ok.1 hresize with ⟨hfail₀, rfl⟩
  -- `Fail` has one entry for each element of the pattern.
  have hlen₀ : fail₀.length = pattern.length := by
    rw [length_of_resize hfail₀, Int.toNat_natCast]
  have hboth : ¬ ((text.length : Int) ≤ 0 ∨ (pattern.length : Int) ≤ 0) := by omega
  rw [if_neg hboth] at hrest
  rcases run_bind_eq_ok.1 hrest with ⟨table, mid, hfill, hsearch⟩
  cases table with
  | none => cases (run_pure_eq_ok.1 hsearch).1
  | some fail =>
      rcases bufferFailArrayLogged_keeps hpos hpattern hlen₀ orderly_nil hfill with
        ⟨horder, hwritten⟩
      have hfail := failTable_of_run hpos hpattern hlen₀ hfuel hfill
      rcases run_bind_eq_ok.1 hsearch with ⟨result, last, hloop, hresult⟩
      cases result with
      | none => cases (run_pure_eq_ok.1 hresult).1
      | some s =>
          have hstart : SearchLogged text pattern fail {} mid :=
            ⟨⟨0, searchInv_start text pattern⟩, horder, hwritten⟩
          have hlogged := (loggedLoop_keeps
            (fun _ _ _ _ => searchBody_keeps htext hpattern hfail) hstart hloop).1
          -- What is left is arithmetic on the loop variables.
          simp only [] at hresult
          split at hresult
          · simp only [run_bind_eq_ok, run_lift_eq_ok, run_pure_eq_ok] at hresult
            rcases hresult with ⟨first, _, ⟨-, rfl⟩, -, rfl⟩
            exact hlogged.orderly
          · rcases run_pure_eq_ok.1 hresult with ⟨-, rfl⟩
            exact hlogged.orderly

end SearchBody

/-- Both functions return on every text and pattern with at least one element each, and all their
accesses are allowed: in range, the table read where `BufferFailArray` has written it, and every
fall back to a smaller index. -/
theorem accesses_orderly {text pattern : List α} {fail : List Int} {fuel : Nat}
    (htextPos : 0 < text.length) (hpos : 0 < pattern.length) (htext : text.length < 2 ^ 31)
    (hpattern : pattern.length < 2 ^ 31) (hlen : fail.length = pattern.length)
    (hfuel : 2 * (text.length + pattern.length) < fuel) :
    (∃ fail' log, bufferFailArray fuel pattern fail pattern.length = .ok (some fail') ∧
      (bufferFailArrayLogged fuel pattern fail pattern.length).run [] = .ok (some fail', log) ∧
      Orderly (Access.Allowed 0 pattern.length) log) ∧
    (∃ r log, bufferBuffer fuel text text.length pattern pattern.length = .ok (some r) ∧
      (bufferBufferLogged fuel text text.length pattern pattern.length).run [] =
        .ok (some r, log) ∧
      Orderly (Access.Allowed text.length pattern.length) log) := by
  constructor
  · rcases bufferFailArray_table hpos hpattern hlen (show 2 * pattern.length < fuel by omega) with
      ⟨fail', hplain, -⟩
    rcases (erases_bufferFailArray fuel pattern fail pattern.length).run_ok hplain [] with
      ⟨log, hrun⟩
    exact ⟨fail', log, hplain, hrun,
      (bufferFailArrayLogged_keeps hpos hpattern hlen orderly_nil hrun).1⟩
  · obtain ⟨r, hplain⟩ :
        ∃ r, bufferBuffer fuel text text.length pattern pattern.length = .ok (some r) := by
      rcases firstOccurrence_or_none pattern text with ⟨p, hp⟩ | hnone
      · exact ⟨p, bufferBuffer_found htext hpattern hpos hfuel hp⟩
      · exact ⟨-1, bufferBuffer_missing htext hpattern hpos hfuel hnone⟩
    rcases (erases_bufferBuffer fuel text text.length pattern pattern.length).run_ok hplain [] with
      ⟨log, hrun⟩
    exact ⟨r, log, hplain, hrun, bufferBufferLogged_orderly htext hpattern htextPos hpos
      (by omega) hrun⟩

/-- A search that falls back from the last element of the pattern into its middle. -/
theorem accesses_orderly_overlap :
    ∃ r log, (bufferBufferLogged 30 [1, 2, 1, 2, 1, 2, 3] 7 [1, 2, 1, 2, 3] 5).run [] =
        .ok (some r, log) ∧
      r = 2 ∧ .fallBack 4 2 ∈ log ∧ Orderly (Access.Allowed 7 5) log := by
  have htext : [1, 2, 1, 2, 1, 2, 3].length < 2 ^ 31 := by decide
  have hpattern : [1, 2, 1, 2, 3].length < 2 ^ 31 := by decide
  have hlen : [0, 0, 0, 0, (0 : Int)].length = [1, 2, 1, 2, 3].length := rfl
  have hboth := accesses_orderly (by decide) (by decide) htext hpattern hlen
    (show _ < 30 by decide)
  rcases hboth with ⟨-, r, log, -, hrun, horder⟩
  have hresult : r = 2 ∧ Access.fallBack 4 2 ∈ log := by
    cases hrun
    decide
  exact ⟨r, log, hrun, hresult.1, hresult.2, horder⟩

end Septem
