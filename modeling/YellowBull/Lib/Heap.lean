import Mathlib.Data.Nat.Basic
import Mathlib.Logic.Function.Basic

/-!
# Heaps of shared objects

Objects that several holders reach through references, where a write through one reference is seen
through every other. A reference is *allocated* when it is below `next`, and a heap *extends*
another when it has its objects, unchanged, and perhaps more.
-/

/-- A reference to an object. -/
abbrev Ref := ℕ

/-- The objects that references lead to. References from `next` on have not been given out. -/
structure Heap (α : Type*) where
  next : Ref
  read : Ref → α

namespace Heap

variable {α : Type*}

/-- The heap without objects. -/
def empty [Inhabited α] : Heap α := ⟨0, fun _ => default⟩

/-- Changes an object in place. -/
def write (h : Heap α) (r : Ref) (x : α) : Heap α := { h with read := Function.update h.read r x }

/-- Makes a new object: its reference, and the heap with it. -/
def alloc (h : Heap α) (x : α) : Ref × Heap α :=
  (h.next, ⟨h.next + 1, Function.update h.read h.next x⟩)

/-- What is written to an object is read from it. -/
@[simp]
theorem read_write_self (h : Heap α) (r : Ref) (x : α) : (h.write r x).read r = x :=
  Function.update_self ..

/-- Writing to an object leaves the others as they are. -/
theorem read_write_of_ne (h : Heap α) {r r' : Ref} (hr : r' ≠ r) (x : α) :
    (h.write r x).read r' = h.read r' :=
  Function.update_of_ne hr ..

/-- A new object has the value that it was made with. -/
@[simp]
theorem read_alloc (h : Heap α) (x : α) : (h.alloc x).2.read (h.alloc x).1 = x :=
  Function.update_self ..

/-- A new object is allocated. -/
theorem alloc_lt_next (h : Heap α) (x : α) : (h.alloc x).1 < (h.alloc x).2.next :=
  Nat.lt_succ_self _

/-- The second heap has the objects of the first, unchanged. -/
structure Extends (h h' : Heap α) : Prop where
  next_le : h.next ≤ h'.next
  read_eq : ∀ r < h.next, h'.read r = h.read r

/-- A heap extends itself. -/
theorem Extends.refl (h : Heap α) : Extends h h := ⟨le_rfl, fun _ _ => rfl⟩

/-- What extends an extension extends the heap. -/
theorem Extends.trans {h₁ h₂ h₃ : Heap α} (h₁₂ : Extends h₁ h₂) (h₂₃ : Extends h₂ h₃) :
    Extends h₁ h₃ :=
  ⟨Nat.le_trans h₁₂.next_le h₂₃.next_le, fun r hr =>
    (h₂₃.read_eq r (Nat.lt_of_lt_of_le hr h₁₂.next_le)).trans (h₁₂.read_eq r hr)⟩

/-- Making an object changes no other. -/
theorem extends_alloc (h : Heap α) (x : α) : Extends h (h.alloc x).2 :=
  ⟨Nat.le_succ _, fun _ hr => Function.update_of_ne (Nat.ne_of_lt hr) ..⟩

end Heap
