import Mathlib.Data.List.Basic

/-!
# Segmentation — cutting a list into blocks from the front

A predicate `Block` says which lists are blocks.  Blocks are not empty, and a list starts with at
most one of them (`Cuts`), so cutting off blocks as long as the rest starts with one is possible in
exactly one way: every list has one segmentation into blocks and a tail that starts with no block
(`exists_segments`, `Segments.unique`).
-/

namespace Cxx

universe u

variable {α : Type u} {Block : List α → Prop}

/-- No block is empty, and no list starts with two different blocks. -/
structure Cuts (Block : List α → Prop) : Prop where
  ne_nil : ∀ {block}, Block block → block ≠ []
  front : ∀ {block block' rest rest'}, Block block → Block block' →
    block ++ rest = block' ++ rest' → block = block'

/-- The list is cut into the blocks and a tail that starts with no block. -/
structure Segments (Block : List α → Prop) (list : List α) (blocks : List (List α))
    (tail : List α) : Prop where
  join : list = blocks.flatten ++ tail
  isBlock : ∀ block ∈ blocks, Block block
  stop : ∀ block rest, tail = block ++ rest → ¬ Block block

theorem Segments.cons {block list tail : List α} {blocks : List (List α)} (hblock : Block block)
    (h : Segments Block list blocks tail) : Segments Block (block ++ list) (block :: blocks) tail where
  join := by rw [h.join, List.flatten_cons, List.append_assoc]
  isBlock := List.forall_mem_cons.2 ⟨hblock, h.isBlock⟩
  stop := h.stop

theorem Segments.tail {block list tail : List α} {blocks : List (List α)}
    (h : Segments Block (block ++ list) (block :: blocks) tail) : Segments Block list blocks tail where
  join := by
    have hjoin := h.join
    rw [List.flatten_cons, List.append_assoc] at hjoin
    exact List.append_cancel_left hjoin
  isBlock := (List.forall_mem_cons.1 h.isBlock).2
  stop := h.stop

theorem exists_segments (hcuts : Cuts Block) (list : List α) :
    ∃ blocks tail, Segments Block list blocks tail := by
  induction hlen : list.length using Nat.strongRecOn generalizing list with
  | ind n ih =>
      by_cases hfront : ∃ block rest, list = block ++ rest ∧ Block block
      · rcases hfront with ⟨block, rest, hlist, hblock⟩
        have hshort : rest.length < n := by
          have hpos := List.length_pos_iff.2 (hcuts.ne_nil hblock)
          rw [← hlen, hlist, List.length_append]
          omega
        rcases ih rest.length hshort rest rfl with ⟨blocks, tail, h⟩
        rw [hlist]
        exact ⟨block :: blocks, tail, h.cons hblock⟩
      · refine ⟨[], list, rfl, fun _ hmem => absurd hmem List.not_mem_nil, ?_⟩
        intro block rest hlist hblock
        exact hfront ⟨block, rest, hlist, hblock⟩

theorem Segments.unique (hcuts : Cuts Block) {list tail tail' : List α}
    {blocks blocks' : List (List α)} (h : Segments Block list blocks tail)
    (h' : Segments Block list blocks' tail') : blocks = blocks' ∧ tail = tail' := by
  induction blocks generalizing list blocks' with
  | nil =>
      cases blocks' with
      | nil => exact ⟨rfl, h.join.symm.trans h'.join⟩
      | cons block' blocks' =>
          -- The tail of the first segmentation starts with a block of the second.
          have hfront : tail = block' ++ (blocks'.flatten ++ tail') := by
            rw [← List.append_assoc, ← List.flatten_cons, ← h'.join]
            exact h.join.symm
          exact absurd (h'.isBlock block' List.mem_cons_self) (h.stop _ _ hfront)
  | cons block blocks ih =>
      have hlist : list = block ++ (blocks.flatten ++ tail) := by
        rw [h.join, List.flatten_cons, List.append_assoc]
      have hblock : Block block := h.isBlock block List.mem_cons_self
      cases blocks' with
      | nil => exact absurd hblock (h'.stop _ _ (h'.join.symm.trans hlist))
      | cons block' blocks' =>
          have hlist' : list = block' ++ (blocks'.flatten ++ tail') := by
            rw [h'.join, List.flatten_cons, List.append_assoc]
          have hsame : block = block' :=
            hcuts.front hblock (h'.isBlock block' List.mem_cons_self) (hlist.symm.trans hlist')
          subst hsame
          rw [hlist] at h h'
          rcases ih h.tail h'.tail with ⟨hblocks, htail⟩
          exact ⟨congrArg (block :: ·) hblocks, htail⟩

end Cxx
