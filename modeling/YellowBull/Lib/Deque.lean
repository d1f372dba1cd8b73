import Mathlib.Data.List.DropRight

/-!
# Bounded deques

`collections.deque` with a `maxlen`, as far as it is used as a queue: `append` at the right end,
which drops the leftmost element when the deque would grow beyond its bound. The bound is a field,
so a deque that is too long cannot be built.

What a deque holds after an append is told by `List.rtake`: the last `maxlen` of what it held and
what was appended (`append_items`). Over a run of appends the claim composes, since what was dropped
before an append does not come back after it (`rtake_rtake_append`).
-/

namespace Py

variable {α : Type*}

/-- `deque(maxlen=maxlen)`, its elements from left to right. -/
structure Deque (α : Type*) where
  maxlen : ℕ
  items : List α
  length_le : items.length ≤ maxlen

namespace Deque

/-- A deque without elements. -/
def empty (maxlen : ℕ) : Deque α := ⟨maxlen, [], Nat.zero_le _⟩

/-- `deque.append`. -/
def append (d : Deque α) (x : α) : Deque α where
  maxlen := d.maxlen
  items :=
    let grown := d.items ++ [x]
    if d.maxlen < grown.length then grown.tail else grown
  length_le := by
    have hd := d.length_le
    dsimp only
    split
    · rw [List.length_tail, List.length_append, List.length_singleton]
      omega
    · omega

/-- `deque.clear`. -/
def clear (d : Deque α) : Deque α := empty d.maxlen

/-- An empty deque has the bound that it is given. -/
@[simp]
theorem empty_maxlen (maxlen : ℕ) : (empty maxlen : Deque α).maxlen = maxlen := rfl

/-- It has no items. -/
@[simp]
theorem empty_items (maxlen : ℕ) : (empty maxlen : Deque α).items = [] := rfl

/-- Appending keeps the bound. -/
@[simp]
theorem append_maxlen (d : Deque α) (x : α) : (d.append x).maxlen = d.maxlen := rfl

/-- Clearing keeps the bound. -/
@[simp]
theorem clear_maxlen (d : Deque α) : d.clear.maxlen = d.maxlen := rfl

/-- Clearing takes all items away. -/
@[simp]
theorem clear_items (d : Deque α) : d.clear.items = [] := rfl

/-- One append keeps the last `maxlen` elements. -/
theorem append_items (d : Deque α) (x : α) :
    (d.append x).items = (d.items ++ [x]).rtake d.maxlen := by
  have hd := d.length_le
  unfold append List.rtake
  simp only [List.length_append, List.length_singleton]
  split
  · have hone : d.items.length + 1 - d.maxlen = 1 := by omega
    rw [hone, List.drop_one]
  · have hzero : d.items.length + 1 - d.maxlen = 0 := by omega
    rw [hzero, List.drop_zero]

/-- What was dropped before an append does not come back after it. -/
theorem rtake_rtake_append (xs ys : List α) (n : ℕ) :
    (xs.rtake n ++ ys).rtake n = (xs ++ ys).rtake n := by
  unfold List.rtake
  rcases Nat.le_total n xs.length with h | h
  · have hkept : (xs.drop (xs.length - n)).length = n := by
      rw [List.length_drop]
      omega
    have hsplit : (xs ++ ys).length - n = (xs.length - n) + ys.length := by
      rw [List.length_append]
      omega
    rw [hsplit, ← List.drop_drop, List.drop_append_of_le_length (Nat.sub_le _ _),
      List.length_append, hkept, Nat.add_sub_cancel_left]
  · rw [Nat.sub_eq_zero_of_le h, List.drop_zero]

end Deque

end Py
