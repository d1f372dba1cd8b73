import Mathlib.Data.Int.Notation
import Mathlib.Data.List.DropRight
import Mathlib.Tactic.SplitIfs

/-!
# Python slices

`xs[i:]` and `xs[:i]` for an integer `i`, as Python reads them: a negative index counts from the
end, and an index out of range is clamped to the list. `-0` is `0`, so `xs[-0:]` is the whole list
and `xs[:-0]` is empty, where a reader who thinks of "the last `n`" expects the opposite.
-/

namespace Py

variable {α : Type*}

/-- The position that Python gives the index `i` of a slice in a list of length `n`. -/
def sliceIndex (n : ℕ) (i : ℤ) : ℕ := if i < 0 then (n + i).toNat else i.toNat

/-- `xs[i:]`. -/
def sliceFrom (xs : List α) (i : ℤ) : List α := xs.drop (sliceIndex xs.length i)

/-- `xs[:i]`. -/
def sliceTo (xs : List α) (i : ℤ) : List α := xs.take (sliceIndex xs.length i)

/-- `xs[i:j]`, where `j` may be left out. -/
def slice (xs : List α) (i : ℤ) (j : Option ℤ) : List α :=
  (xs.take ((j.map (sliceIndex xs.length)).getD xs.length)).drop (sliceIndex xs.length i)

/-- `xs[i:]` is a suffix of `xs`. -/
theorem sliceFrom_suffix (xs : List α) (i : ℤ) : sliceFrom xs i <:+ xs := List.drop_suffix _ _

/-- For a positive `n`, `xs[-n:]` is what is left when all but the last `n` elements are dropped. -/
theorem sliceFrom_neg (xs : List α) {n : ℤ} (hn : 0 < n) :
    sliceFrom xs (-n) = xs.drop (xs.length - n.toNat) := by
  have hidx : sliceIndex xs.length (-n) = xs.length - n.toNat := by
    unfold sliceIndex
    split_ifs <;> omega
  rw [sliceFrom, hidx]

/-- For `n ≥ 0`, `xs[-n:]` is the last `n` elements, or all where there are fewer, unless `n` is `0`
and there are any: `xs[-0:]` is the whole list. -/
theorem sliceFrom_neg_eq_rtake_iff (xs : List α) (n : ℕ) :
    sliceFrom xs (-n) = xs.rtake (min n xs.length) ↔ n ≠ 0 ∨ xs = [] := by
  rcases Nat.eq_zero_or_pos n with rfl | hn
  · simp [sliceFrom, sliceIndex]
  · have hdrop : xs.length - min n xs.length = xs.length - n := by omega
    have hslice : sliceFrom xs (-n) = xs.rtake (min n xs.length) := by
      rw [sliceFrom_neg xs (Int.natCast_pos.mpr hn), Int.toNat_natCast, List.rtake, hdrop]
    exact iff_of_true hslice (Or.inl hn.ne')

/-- For a non-negative `n`, `xs[:n]` is the first `n` elements. -/
theorem sliceTo_of_nonneg (xs : List α) {n : ℤ} (hn : 0 ≤ n) : sliceTo xs n = xs.take n.toNat := by
  rw [sliceTo, sliceIndex, if_neg (by omega)]

/-- `xs[-n:]` of a list that ends in `suf`, for a window `n` that does not reach past `suf`, is a
suffix of `suf`. -/
theorem sliceFrom_neg_append {pre suf : List α} {n : ℤ} (hn : 0 < n) (h : n ≤ suf.length) :
    sliceFrom (pre ++ suf) (-n) = suf.drop (suf.length - n.toNat) := by
  have hpre : pre.length ≤ (pre ++ suf).length - n.toNat := by
    rw [List.length_append]
    omega
  have hsuf : (pre ++ suf).length - n.toNat - pre.length = suf.length - n.toNat := by
    rw [List.length_append]
    omega
  rw [sliceFrom_neg _ hn, List.drop_append, List.drop_eq_nil_of_le hpre, List.nil_append, hsuf]

/-- `xs[-n:]` of a list that ends in `suf`, for a window `n` that covers `suf`, ends in `suf`. -/
theorem suffix_sliceFrom_neg {pre suf : List α} {n : ℤ} (hn : 0 < n) (h : suf.length ≤ n) :
    suf <:+ sliceFrom (pre ++ suf) (-n) := by
  have hsuf : (pre ++ suf).length - n.toNat - pre.length = 0 := by
    rw [List.length_append]
    omega
  rw [sliceFrom_neg _ hn, List.drop_append, hsuf, List.drop_zero]
  exact List.suffix_append _ _

end Py
