import Septem.Library.Checked

/-!
# SharedHeap — objects behind `std::shared_ptr`

Objects live in a heap and are named by their index in it; `std::make_shared` appends an object,
so it returns a name never used before.  A `SharedPtr` is such a name, or null.
-/

namespace Cxx

variable {α : Type}

abbrev ObjectId : Type := Nat

/-- `std::shared_ptr`; `none` is the null pointer. -/
abbrev SharedPtr : Type := Option ObjectId

abbrev Heap (α : Type) : Type := List α

/-- `std::make_shared<T>(value)`. -/
def makeShared (heap : Heap α) (value : α) : ObjectId × Heap α :=
  (heap.length, heap ++ [value])

/-- `*ptr`. -/
def deref (heap : Heap α) : SharedPtr → Checked α
  | none => .error .nullPointer
  | some i =>
      match heap[i]? with
      | none => .error .outOfBounds
      | some value => .ok value

/-- `*ptr = f(*ptr)`: the effect of a member function on the object. -/
def mutate (heap : Heap α) (ptr : SharedPtr) (f : α → α) : Checked (Heap α) := do
  let value ← deref heap ptr
  match ptr with
  | none => pure heap
  | some i => pure (heap.set i (f value))

/-- The same for a member function that can fault and returns a value. -/
def callOn {β : Type} (heap : Heap α) (ptr : SharedPtr) (f : α → Checked (α × β)) :
    Checked (β × Heap α) := do
  let value ← deref heap ptr
  let (value, ret) ← f value
  match ptr with
  | none => pure (ret, heap)
  | some i => pure (ret, heap.set i value)

theorem deref_some {heap : Heap α} {i : ObjectId} {value : α} :
    deref heap (some i) = .ok value ↔ heap[i]? = some value := by
  cases hget : heap[i]? with
  | none => simp [deref, hget]
  | some v => simp [deref, hget]

theorem deref_ok {heap : Heap α} {i : ObjectId} (h : i < heap.length) :
    deref heap (some i) = .ok heap[i] :=
  deref_some.2 (List.getElem?_eq_getElem h)

/-- The object reads as it was set. -/
theorem deref_set {heap : Heap α} {i : ObjectId} (h : i < heap.length) (value : α) :
    deref (heap.set i value) (some i) = .ok value :=
  deref_some.2 (List.getElem?_set_self h)

theorem callOn_ok {β : Type} {heap : Heap α} {i : ObjectId} {f : α → Checked (α × β)}
    {value value' : α} {ret : β} (hget : heap[i]? = some value)
    (hf : f value = .ok (value', ret)) :
    callOn heap (some i) f = .ok (ret, heap.set i value') := by
  rw [callOn, deref_some.2 hget, Checked.ok_bind, hf, Checked.ok_bind]
  rfl

/-- An object that exists can be mutated. -/
theorem mutate_set {heap : Heap α} {i : ObjectId} (h : i < heap.length) (f : α → α) :
    ∃ value, mutate heap (some i) f = .ok (heap.set i (f value)) :=
  ⟨heap[i], by rw [mutate, deref_ok h]; rfl⟩

/-- A mutation that returns has changed the one object the pointer designates. -/
theorem mutate_inv {heap heap' : Heap α} {ptr : SharedPtr} {f : α → α}
    (h : mutate heap ptr f = .ok heap') :
    ∃ (i : ObjectId) (value : α), ptr = some i ∧ heap[i]? = some value ∧
      heap' = heap.set i (f value) ∧ heap'[i]? = some (f value) := by
  rcases Checked.bind_eq_ok.1 h with ⟨value, hval, hset⟩
  cases ptr with
  | none => cases hval
  | some i =>
      cases hset
      have hget : heap[i]? = some value := deref_some.1 hval
      -- The object exists, so setting its index is seen when it is read back.
      have hlt : i < heap.length := by
        rcases List.getElem?_eq_some_iff.1 hget with ⟨hlt, -⟩
        exact hlt
      exact ⟨i, value, rfl, hget, rfl, by simp [hlt]⟩

end Cxx
